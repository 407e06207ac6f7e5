import Coprocess.Program.Regex

/-!
# Patterns of words

* `Glob`: a pattern as a list of elements; `Glob.compile`, `Glob.accepts`;
* `Glob.trimFront`, `Glob.trimBack`: cutting a text at a pattern.
-/

namespace Coprocess.Program.Shell

/-- An element of a pattern. -/
inductive GlobElement
  | char (c : Char)
  /-- One character of some. -/
  | one (test : Char → Bool)
  /-- Any characters. -/
  | any

/-- A pattern. -/
abbrev Glob := List GlobElement

namespace Glob

/-- The pattern that characters stand for; quoted ones stand for themselves. -/
def compile : Nat → List (Char × Bool) → Glob
  | 0, _ => []
  | _, [] => []
  | fuel + 1, (c, quoted) :: rest =>
    if quoted then .char c :: compile fuel rest
    else match c with
      | '*' => .any :: compile fuel rest
      | '?' => .one (fun _ => true) :: compile fuel rest
      | '[' =>
        let text := match rest.map (·.1) with
          | '!' :: more => '^' :: more
          | more => more
        match Regex.bracket text with
        | some (test, after) =>
          .one (fun c => test (byteOf c)) :: compile fuel (rest.drop (text.length - after.length))
        | none => .char c :: compile fuel rest
      | _ => .char c :: compile fuel rest

/-- All that is left of a text when something is cut off at the front. -/
def suffixes : List Char → List (List Char)
  | [] => [[]]
  | c :: rest => (c :: rest) :: suffixes rest

/-- A pattern matches a whole text. -/
def accepts : Glob → List Char → Bool
  | [], text => text.isEmpty
  | .char c :: g, d :: rest => c = d && accepts g rest
  | .one test :: g, d :: rest => test d && accepts g rest
  | .any :: g, text => (suffixes text).any (accepts g)
  | _ :: _, [] => false

/-- A text without the shortest or longest part at its front that a pattern matches. -/
def trimFront (g : Glob) (longest : Bool) (text : List Char) : List Char :=
  let sizes := List.range (text.length + 1)
  let sizes := if longest then sizes.reverse else sizes
  match sizes.find? fun n => g.accepts (text.take n) with
  | some n => text.drop n
  | none => text

/-- A text without the shortest or longest part at its end that a pattern matches. -/
def trimBack (g : Glob) (longest : Bool) (text : List Char) : List Char :=
  let sizes := List.range (text.length + 1)
  let sizes := if longest then sizes else sizes.reverse
  match sizes.find? fun n => g.accepts (text.drop n) with
  | some n => text.take n
  | none => text

end Glob

end Coprocess.Program.Shell
