/-!
# Similar words

Two words are the more similar the more characters they share at nearly the same places, and the
fewer of those stand in another order.

* `shared`: the characters that two words share;
* `similarity`: a fraction between 0 and 1;
* `mostSimilar?`: the word of a list that is worth proposing.
-/

namespace Coprocess.Text

/-- Finds for each character of the second list, which start at place `i`, an equal one of the first
that lies less than `reach` places off and is not taken, and says at which places. -/
def pairUp (a : List Char) (reach i : Nat) (taken : List Nat) : List Char → List Nat
  | [] => []
  | c :: rest =>
    let free (j : Nat) : Bool := a[j]? = some c && !taken.contains j && i < j + reach
    match (List.range (min a.length (i + reach))).find? free with
    | some j => j :: pairUp a reach (i + 1) (j :: taken) rest
    | none => pairUp a reach (i + 1) taken rest

/-- The characters that `b` shares with `a`, in the order of `b` and in the order of `a`. -/
def shared (b a : List Char) : List Char × List Char :=
  let places := pairUp a (max 1 (max a.length b.length / 2)) 0 [] b
  let pick (places : List Nat) : List Char := places.filterMap (a[·]?)
  (pick places, pick (places.mergeSort (· ≤ ·)))

/-- How similar two words are, as a numerator and a denominator: the mean of the parts of either
word that are shared and the part of those that stand in the same order. -/
def similarity (a b : List Char) : Nat × Nat :=
  let (here, there) := shared a b
  let m := here.length
  let moved := ((here.zip there).filter fun (c, d) => c ≠ d).length / 2
  if m = 0 then (0, 1)
  else (m * m * b.length + m * m * a.length + (m - moved) * a.length * b.length,
    3 * m * a.length * b.length)

/-- One fraction is less than another. -/
def lessFraction (x y : Nat × Nat) : Bool := x.1 * y.2 < y.1 * x.2

/-- The most similar word of a list, the last of equals, if it is more than seven tenths similar. -/
def mostSimilar? (word : String) (candidates : List String) : Option String :=
  let close := candidates.filterMap fun candidate =>
    let degree := similarity word.toList candidate.toList
    if lessFraction (7, 10) degree then some (degree, candidate) else none
  let best := close.foldl (fun (best : Option ((Nat × Nat) × String)) next =>
    match best with
    | none => some next
    | some known => if lessFraction next.1 known.1 then best else some next) none
  best.map (·.2)

end Coprocess.Text
