import Coprocess.Text.Blank
import Coprocess.Text.Letter

/-!
# Patterns of field values

A regular expression that the value of a field has to match. Here it is only judged, never matched.

A pattern matches characters or, where that is asked for, bytes, but never bytes that are no text.
The tables that sort all characters into classes and by case are not at hand, so that classes with a
name, edges of words and letters of either case are to be had for bytes only. Commas, equals signs
and closing braces end a value; no pattern holds them, and so none has a counted repetition.

* `Mode`: how a pattern is read from a place on;
* `Mode.escape`, `Mode.inClass`: the parts of a pattern that start with a backslash or a bracket;
* `Reading.accepts`, `isPattern`: a text is a pattern.
-/

namespace Coprocess.LogPattern

/-- How a pattern is read from a place on. -/
structure Mode where
  /-- Letters of either case match. -/
  foldCase : Bool := false
  /-- Characters are matched, not bytes. -/
  characters : Bool := true
  /-- Blank space and comments do not count. -/
  spaced : Bool := false

/-- What one character, or an escape, stands for. -/
inductive Item
  /-- A character. `coded` tells that two hexadecimal digits stood for it. -/
  | literal (c : Char) (coded : Bool)
  /-- The start or the end of the text. -/
  | textEdge
  | wordEdge
  /-- A class with a name, or all that is not in it. -/
  | named (negated : Bool)

/-- A text without blank space and comments in front. -/
def skipComments (inside : Bool) : List Char → List Char
  | [] => []
  | c :: rest =>
    if inside then skipComments (c ≠ '\n') rest
    else if Text.isBlank c then skipComments false rest
    else if c = '#' then skipComments true rest
    else c :: rest

namespace Mode

/-- A text without what does not count at its start. -/
def skip (m : Mode) (text : List Char) : List Char :=
  if m.spaced then skipComments false text else text

/-- The next character that counts. Comments do, after their first character. -/
def peek (m : Mode) (text : List Char) : Option Char :=
  if !m.spaced then text.head?
  else match text.dropWhile Text.isBlank with
    | '#' :: rest => (rest.dropWhile Text.isBlank).head?
    | rest => rest.head?

/-- An item may stand outside of brackets. -/
def admits (m : Mode) : Item → Bool
  | .literal c coded => if m.characters then !m.foldCase else !coded || c.toNat < 0x80
  | .textEdge => true
  | .wordEdge => !m.characters
  | .named negated => !m.characters && !negated

/-- An item may stand in brackets. -/
def admitsInside (m : Mode) : Item → Bool
  | .literal c _ => if m.characters then !m.foldCase else c.toNat < 0x80
  | .named negated => !m.characters && !negated
  | _ => false

/-- A class of ASCII characters may stand in brackets. -/
def admitsAscii (m : Mode) (negated : Bool) : Bool :=
  if m.characters then !m.foldCase else !negated

end Mode

/-! ## Escapes -/

/-- The value of a hexadecimal digit. -/
def hexDigit? (c : Char) : Option Nat :=
  if c.isDigit then some (c.toNat - '0'.toNat)
  else if 'a' ≤ c ∧ c ≤ 'f' then some (c.toNat - 'a'.toNat + 10)
  else if 'A' ≤ c ∧ c ≤ 'F' then some (c.toNat - 'A'.toNat + 10)
  else none

namespace Mode

/-- A number of so many hexadecimal digits, after others that stand for `n`. -/
def hexNumber (m : Mode) : Nat → Nat → List Char → Option (Nat × List Char)
  | 0, n, text => some (n, text)
  | count + 1, n, text =>
    match m.skip text with
    | [] => none
    | c :: rest => (hexDigit? c).bind fun digit => m.hexNumber count (16 * n + digit) rest

/-- A character by its code point, in so many digits. -/
def coded (m : Mode) (digits : Nat) (text : List Char) : Option (Item × List Char) := do
  let (n, rest) ← m.hexNumber digits 0 text
  if n.isValidChar then return (.literal (Char.ofNat n) (digits = 2), rest) else none

/-- The characters that some letters stand for. -/
def controls : List (Char × Nat) :=
  [('a', 7), ('f', 12), ('t', 9), ('n', 10), ('r', 13), ('v', 11)]

/-- What follows a backslash. -/
def escape (m : Mode) : List Char → Option (Item × List Char)
  | [] => none
  | 'x' :: rest => m.coded 2 rest
  | 'u' :: rest => m.coded 4 rest
  | 'U' :: rest => m.coded 8 rest
  | c :: rest =>
    if "dsw".toList.contains c then some (.named false, rest)
    else if "DSW".toList.contains c then some (.named true, rest)
    else if "Az".toList.contains c then some (.textEdge, rest)
    else if "bB<>".toList.contains c then some (.wordEdge, rest)
    else match controls.lookup c with
      | some n => some (.literal (Char.ofNat n) false, rest)
      | none =>
        if c.toNat < 0x80 ∧ !c.isAlphanum then some (.literal c false, rest) else none

/-! ## Brackets -/

/-- An item of a class. -/
def item (m : Mode) : List Char → Option (Item × List Char)
  | [] => none
  | '\\' :: rest => m.escape rest
  | c :: rest => some (.literal c false, rest)

/-- What follows an item of a class, or two with a hyphen between them. -/
def range (m : Mode) (text : List Char) : Option (List Char) := do
  let (first, rest) ← m.item text
  if !m.admitsInside first then none
  match m.skip rest with
  | '-' :: after =>
    let next := m.peek after
    if next = some ']' ∨ next = some '-' then return '-' :: after
    let (last, rest) ← m.item (m.skip after)
    match first, last with
    | .literal a _, .literal b _ =>
      if a ≤ b ∧ m.admitsInside last then return rest else none
    | _, _ => none
  | rest => return rest

/-- The names of classes of ASCII characters. -/
def asciiNames : List String :=
  ["alnum", "alpha", "ascii", "blank", "cntrl", "digit", "graph", "lower", "print", "punct",
    "space", "upper", "word", "xdigit"]

/-- The name of a class of ASCII characters, without its first bracket: whether it is negated, and
what follows it. -/
def asciiClass? : List Char → Option (Bool × List Char)
  | ':' :: text =>
    let negated := text.head? = some '^'
    let text := if negated then text.tail else text
    let name := text.takeWhile (· ≠ ':')
    match text.drop name.length with
    | ':' :: ']' :: rest =>
      if asciiNames.contains (String.ofList name) then some (negated, rest) else none
    | _ => none
  | _ => none

/-- What has been read of a class. -/
inductive Lead
  | nothing
  /-- Hyphens only. -/
  | hyphens
  | items
  deriving DecidableEq

/-- What follows the bracket that opens a class. All but some bytes is more than text. -/
def opened (m : Mode) (text : List Char) : Option (List Char) :=
  match m.skip text with
  | '^' :: rest => if m.characters then some rest else none
  | rest => some rest

/-- What follows a class. `depth` classes around it are open as well. -/
def inClass (m : Mode) : Nat → Lead → Nat → List Char → Option (List Char)
  | 0, _, _, _ => none
  | fuel + 1, lead, depth, text =>
    match m.skip text, lead with
    | [], _ => none
    | ']' :: rest, .nothing =>
      if m.admitsInside (.literal ']' false) then m.inClass fuel .items depth rest else none
    | ']' :: rest, _ =>
      match depth with
      | 0 => some rest
      | depth + 1 => m.inClass fuel .items depth rest
    | '-' :: '-' :: rest, .items => m.inClass fuel .items depth rest
    | '-' :: rest, lead =>
      if lead = .items then (m.range ('-' :: rest)).bind (m.inClass fuel .items depth)
      else if m.admitsInside (.literal '-' false) then m.inClass fuel .hyphens depth rest
      else none
    | '&' :: '&' :: rest, _ => m.inClass fuel .items depth rest
    | '~' :: '~' :: rest, _ => m.inClass fuel .items depth rest
    | '[' :: rest, _ =>
      match asciiClass? rest with
      | some (negated, rest) =>
        if m.admitsAscii negated then m.inClass fuel .items depth rest else none
      | none => (m.opened rest).bind (m.inClass fuel .nothing (depth + 1))
    | text, _ => (m.range text).bind (m.inClass fuel .items depth)

/-- What follows a class, without its first bracket. -/
def brackets (m : Mode) (text : List Char) : Option (List Char) :=
  (m.opened text).bind (m.inClass (text.length + 1) .nothing 0)

end Mode

/-! ## Groups -/

/-- What has been read of a pattern. -/
structure Reading where
  mode : Mode := {}
  /-- The modes around the open groups, the innermost first. -/
  outside : List Mode := []
  /-- The last part may be repeated. -/
  repeatable : Bool := false
  /-- The names of the groups. -/
  names : List (List Char) := []

/-- A text is the name of a group. -/
def isName : List Char → Bool
  | [] => false
  | c :: rest =>
    (c = '_' || Text.isLetter c) &&
      rest.all fun c => "_.[]".toList.contains c || Text.isLetterOrNumeral c

/-- Some letters ask for modes, or turn off those after a hyphen; none is named twice. -/
def areModes (letters : List Char) : Bool :=
  letters.all (fun c => "imsUuRx-".toList.contains c && letters.count c = 1) &&
    letters.getLast? ≠ some '-'

/-- The mode that some letters ask for. -/
def Mode.change (m : Mode) (letters : List Char) : Mode :=
  let asked := letters.takeWhile (· ≠ '-')
  let on (c : Char) (before : Bool) : Bool :=
    if letters.contains c then asked.contains c else before
  { foldCase := on 'i' m.foldCase
    characters := on 'u' m.characters
    spaced := on 'x' m.spaced }

namespace Reading

/-- Opens a group, in which a mode holds. -/
def enter (r : Reading) (mode : Mode) : Reading :=
  { r with mode, outside := r.mode :: r.outside, repeatable := false }

/-- A group with a name. -/
def openNamed (r : Reading) (text : List Char) : Option (Reading × List Char) :=
  let name := text.takeWhile (· ≠ '>')
  match text.drop name.length with
  | [] => none
  | _ :: rest =>
    if isName name ∧ !r.names.contains name then
      some ({ r.enter r.mode with names := name :: r.names }, rest)
    else none

/-- A change of mode, for a group or for what follows. -/
def changeMode (r : Reading) (text : List Char) : Option (Reading × List Char) :=
  let letters := text.takeWhile fun c => c ≠ ':' ∧ c ≠ ')'
  let mode := r.mode.change letters
  if !areModes letters then none
  else match text.drop letters.length with
    | ':' :: rest => some (r.enter mode, rest)
    | ')' :: rest =>
      if letters.isEmpty then none else some ({ r with mode, repeatable := false }, rest)
    | _ => none

/-- What follows an opening parenthesis. Looking ahead or behind is not to be had. -/
def openGroup (r : Reading) (text : List Char) : Option (Reading × List Char) :=
  match r.mode.skip text with
  | '?' :: '=' :: _ => none
  | '?' :: '!' :: _ => none
  | '?' :: '<' :: '=' :: _ => none
  | '?' :: '<' :: '!' :: _ => none
  | '?' :: 'P' :: '<' :: rest => r.openNamed rest
  | '?' :: '<' :: rest => r.openNamed rest
  | '?' :: rest => r.changeMode rest
  | rest => some (r.enter r.mode, rest)

/-- The same after a part that may be repeated. -/
def afterPart (r : Reading) : Reading := { r with repeatable := true }

/-- The rest of a pattern completes it. -/
def accepts : Nat → Reading → List Char → Bool
  | 0, _, _ => false
  | fuel + 1, r, text =>
    match r.mode.skip text with
    | [] => r.outside.isEmpty
    | '(' :: rest => (r.openGroup rest).any fun (r, rest) => accepts fuel r rest
    | ')' :: rest =>
      match r.outside with
      | [] => false
      | mode :: outside => accepts fuel { r.afterPart with mode, outside } rest
    | '|' :: rest => accepts fuel { r with repeatable := false } rest
    | '[' :: rest => (r.mode.brackets rest).any (accepts fuel r.afterPart)
    | '\x7b' :: _ => false
    | '.' :: rest => r.mode.characters && accepts fuel r.afterPart rest
    | '^' :: rest => accepts fuel r.afterPart rest
    | '$' :: rest => accepts fuel r.afterPart rest
    | '\\' :: rest =>
      (r.mode.escape rest).any fun (item, rest) =>
        r.mode.admits item && accepts fuel r.afterPart rest
    | c :: rest =>
      if "?*+".toList.contains c then
        let rest := if rest.head? = some '?' then rest.tail else rest
        r.repeatable && accepts fuel r rest
      else r.mode.admits (.literal c false) && accepts fuel r.afterPart rest

end Reading

/-- A text is a pattern. -/
def isPattern (text : List Char) : Bool := Reading.accepts (text.length + 1) {} text

end Coprocess.LogPattern
