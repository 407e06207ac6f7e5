import Coprocess.Program.Arguments
import Coprocess.Program.ByteClass
import Coprocess.Program.Filter

/-!
# Transliterating bytes

* `ByteSet.parse?`: the bytes that a written set stands for;
* `Transliteration`: what becomes of each byte; `Transliteration.feed`;
* `Transliteration.ofArguments?`.
-/

namespace Coprocess.Program

namespace ByteSet

/-- A character of a set; one that was escaped has no special meaning. -/
abbrev Token := Char × Bool

/-- The number of an octal digit. -/
def octalDigit (c : Char) : Nat := c.toNat - '0'.toNat

/-- The characters of a set, with escapes resolved. -/
def tokens : List Char → List Token
  | '\\' :: a :: b :: c :: rest =>
    if isOctal a && isOctal b && isOctal c && a ≤ '3' then
      (Char.ofNat (octalDigit a * 64 + octalDigit b * 8 + octalDigit c), true) :: tokens rest
    else if isOctal a && isOctal b then
      (Char.ofNat (octalDigit a * 8 + octalDigit b), true) :: tokens (c :: rest)
    else short a :: tokens (b :: c :: rest)
  | ['\\', a, b] =>
    if isOctal a && isOctal b then [(Char.ofNat (octalDigit a * 8 + octalDigit b), true)]
    else [short a, (b, false)]
  | ['\\', a] => [short a]
  | c :: rest => (c, false) :: tokens rest
  | [] => []
where
  /-- A character after a backslash. -/
  short (a : Char) : Token :=
    if isOctal a then (Char.ofNat (octalDigit a), true)
    else match a with
      | 'n' => ('\n', true)
      | 't' => ('\t', true)
      | 'r' => ('\r', true)
      | 'a' => ('\x07', true)
      | 'b' => ('\x08', true)
      | 'f' => ('\x0c', true)
      | 'v' => ('\x0b', true)
      | _ => (a, true)

/-- Every byte, in order. -/
def allBytes : List UInt8 := (List.range 256).map UInt8.ofNat

/-- A set, and where in it a byte is to be repeated as often as needed. -/
structure Items where
  front : List UInt8 := []
  /-- The byte to repeat, and the bytes after it. -/
  fill : Option (UInt8 × List UInt8) := none
  /-- The classes with the places where they begin. -/
  classes : List (Nat × String) := []

namespace Items

/-- Puts bytes in front. -/
def before (bytes : List UInt8) (i : Items) : Items :=
  { i with
    front := bytes ++ i.front
    classes := i.classes.map fun (place, name) => (place + bytes.length, name) }

/-- Puts a class in front. -/
def beforeClass (name : String) (bytes : List UInt8) (i : Items) : Items :=
  let i := i.before bytes
  { i with classes := (0, name) :: i.classes }

/-- Ends the front with a byte to repeat, which only one may do. -/
def filling (b : UInt8) (i : Items) : Option Items :=
  if i.fill.isSome then none else some { i with front := [], fill := some (b, i.front) }

end Items

/-- The text up to two tokens, and what follows them. -/
def upTo (a b : Char) (read : List Token) : List Token → Option (List Token × List Token)
  | [] => none
  | [_] => none
  | s :: t :: rest =>
    if s = (a, false) ∧ t = (b, false) then some (read.reverse, rest)
    else upTo a b (s :: read) (t :: rest)

/-- What an opening bracket stands for. -/
inductive Bracketed
  | itself
  /-- Something that is not allowed. -/
  | wrong
  /-- Some items in front of those of the rest. -/
  | items (add : Items → Option Items) (rest : List Token)

/-- What follows an opening bracket: a class, an equivalence, or a byte with a count. -/
def bracketed (text : List Token) : Bracketed :=
  let delimited (c : Char) (rest : List Token)
      (make : List Char → Option (Items → Option Items)) : Bracketed :=
    match upTo c ']' [] rest with
    | some (body, after) =>
      match make (body.map (·.1)) with
      | some add => .items add after
      | none => .wrong
    | none => .itself
  match text with
  | (':', false) :: rest =>
    delimited ':' rest fun name =>
      let name := String.ofList name
      (classTest name).map fun test => fun i => some (i.beforeClass name (allBytes.filter test))
  | ('=', false) :: rest =>
    delimited '=' rest fun
      | [c] => some fun i => some (i.before [byteOf c])
      | _ => none
  | (c, _) :: ('*', false) :: rest =>
    let digits := (rest.takeWhile (·.1.isDigit)).map (·.1)
    match rest.drop digits.length with
    | (']', false) :: after =>
      let count := match digits with
        | '0' :: _ => (readOctal digits.length digits).1
        | _ => ((readDecimal digits).getD (0, [])).1
      if count = 0 then .items (Items.filling (byteOf c)) after
      else .items (fun i => some (i.before (List.replicate count (byteOf c)))) after
    | _ => .itself
  | _ => .itself

/-- The bytes of a range. -/
def range (a b : Char) : List UInt8 :=
  (List.range (b.toNat + 1 - a.toNat)).map fun i => .ofNat (a.toNat + i)

/-- The items of a set; `none` for one that is malformed, as by a range that runs backwards. -/
def items : Nat → List Token → Option Items
  | 0, _ => some {}
  | _, [] => some {}
  | fuel + 1, (a, escaped) :: rest =>
    let single : Option Items := match rest with
      | ('-', false) :: (b, _) :: rest' =>
        if b < a then none else (items fuel rest').map (Items.before (range a b))
      | _ => (items fuel rest).map (Items.before [byteOf a])
    if a = '[' ∧ !escaped then
      match bracketed rest with
      | .items add rest => (items fuel rest).bind add
      | .itself => single
      | .wrong => none
    else single

/-- The items of a written set. -/
def parse? (s : Bytes) : Option Items :=
  let text := tokens (charsOf s)
  items (text.length + 1) text

/-- The classes of letters by their case. -/
def isCase (name : String) : Bool := name = "upper" || name = "lower"

/-- Each class in the second set is one of case, and stands where the first set has one. -/
def aligned (first second : Items) : Bool :=
  second.classes.all fun (place, name) =>
    isCase name && first.classes.any fun (place', name') => place' = place && isCase name'

/-- The bytes of a set that has at least `size` of them if one is repeated. -/
def Items.spread (i : Items) (size : Nat) : List UInt8 :=
  match i.fill with
  | none => i.front
  | some (b, after) =>
    i.front ++ List.replicate (size - (i.front.length + after.length)) b ++ after

end ByteSet

/-- What becomes of each byte. -/
structure Transliteration where
  /-- What a byte is replaced by; `none` drops it. -/
  image : UInt8 → Option UInt8
  /-- Of bytes in this set only the first in a row is kept. -/
  squeezed : UInt8 → Bool := fun _ => false
  /-- The last byte written. -/
  last : Option UInt8 := none

namespace Transliteration

/-- Transliterates some bytes after the bytes `written`, which are held last first. -/
def onto (t : Transliteration) (written : Bytes) (last : Option UInt8) :
    Bytes → Bytes × Option UInt8
  | [] => (written.reverse, last)
  | b :: rest =>
    match t.image b with
    | none => onto t written last rest
    | some c =>
      if t.squeezed c && last = some c then onto t written last rest
      else onto t (c :: written) (some c) rest

/-- Transliterates a piece of the input. -/
def feed (t : Transliteration) (s : Bytes) : Reply Transliteration :=
  let (output, last) := t.onto [] t.last s
  ⟨{ t with last }, output, none⟩

/-- The options of a transliteration. -/
def choices : List Choice :=
  [⟨'c', "complement", false⟩, ⟨'C', "", false⟩, ⟨'d', "delete", false⟩,
    ⟨'s', "squeeze-repeats", false⟩, ⟨'t', "truncate-set1", false⟩]

/-- What a transliteration is asked for. -/
structure Wish where
  complement : Bool := false
  delete : Bool := false
  squeeze : Bool := false
  truncate : Bool := false

/-- The wish that an option adds to. -/
def Wish.add (w : Wish) : Char → Wish
  | 'd' => { w with delete := true }
  | 's' => { w with squeeze := true }
  | 't' => { w with truncate := true }
  | _ => { w with complement := true }

/-- Replaces the bytes of one set by those of another, whose last byte stands in for what it lacks.
-/
def replacing (w : Wish) (first second : List UInt8) : UInt8 → Option UInt8 := fun b =>
  let first := if w.truncate then first.take second.length else first
  -- The last of equal bytes decides.
  match first.reverse.findIdx? (· = b) with
  | none => some b
  | some i => (second[first.length - 1 - i]?).or second.getLast?

/-- The same function, looked up in a table. -/
def tabulate (f : UInt8 → Option UInt8) : UInt8 → Option UInt8 :=
  let table := (ByteSet.allBytes.map f).toArray
  fun b => (table[b.toNat]?).getD none

/-- The transliteration that some arguments ask for. -/
def ofArguments? (args : List Bytes) : Option Transliteration := do
  let given ← Arguments.scan? choices false args
  let w := given.options.foldl (fun w (letter, _) => w.add letter) ({} : Wish)
  match given.operands with
  | [a] =>
    let a ← ByteSet.parse? a
    if a.fill.isSome then none
    let first := a.spread 0
    let has (b : UInt8) : Bool := first.contains b != w.complement
    if w.delete ∧ !w.squeeze then
      return { image := tabulate fun b => if has b then none else some b }
    else if w.squeeze ∧ !w.delete then
      return { image := some, squeezed := has }
    else none
  | [a, b] =>
    let a ← ByteSet.parse? a
    let b ← ByteSet.parse? b
    if a.fill.isSome ∨ (w.delete ∧ b.fill.isSome) then none
    let first := a.spread 0
    let chosen := if w.complement then ByteSet.allBytes.filter fun b => !first.contains b else first
    if w.delete then
      if !w.squeeze then none
      let second := b.spread 0
      return { image := tabulate fun b => if chosen.contains b then none else some b,
               squeezed := second.contains }
    else
      let second := b.spread chosen.length
      if second.isEmpty ∨ !ByteSet.aligned a b then none
      return { image := tabulate (replacing w chosen second),
               squeezed := if w.squeeze then second.contains else fun _ => false }
  | _ => none

end Transliteration

end Coprocess.Program
