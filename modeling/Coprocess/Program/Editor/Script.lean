import Coprocess.Program.Arguments
import Coprocess.Program.Regex

/-!
# Editing scripts

A script is a sequence of commands with addresses.

* `Address`, `Selector`: which lines a command is for;
* `Operation`: what it does; `Instruction`, `Script`;
* `Script.parse?`, `Script.ofArguments`.
-/

namespace Coprocess.Program

/-- A line, or the lines that have something in common. -/
inductive Address
  | line (number : Nat)
  | last
  /-- Lines that match; without an expression the one used last. -/
  | pattern (r : Option Regex)
  /-- Every `step`-th line from `first` on. -/
  | every (first step : Nat)

/-- Where a range of lines ends. -/
inductive RangeEnd
  | address (a : Address)
  /-- So many lines later. -/
  | after (count : Nat)
  /-- At the next line whose number is a multiple. -/
  | multiple (of : Nat)

/-- The lines that a command is for. -/
inductive Selector
  | always
  | one (a : Address)
  | range (start : Address) (stop : RangeEnd)

/-- How letters of a replacement are changed. -/
inductive Casing
  | keep
  | upper
  | lower
  /-- Only the next letter. -/
  | upperNext
  | lowerNext

/-- A part of a replacement. -/
inductive Part
  | text (s : Bytes)
  | group (number : Nat)
  | casing (c : Casing)

/-- Where a branch goes when it is taken. -/
inductive Condition
  | always
  /-- A substitution was made since the line was read. -/
  | replaced
  | unreplaced

/-- What a command does. -/
inductive Operation
  /-- Begins a block; lines that are not selected go on behind it. -/
  | block (behind : Nat)
  | nothing
  | branch (condition : Condition) (label : List Char)
  | append (text : Bytes)
  | insert (text : Bytes)
  | change (text : Bytes)
  | delete
  | deleteFirst
  | write
  | writeFirst
  | writeNumber
  /-- Writes the name of the input. -/
  | writeName
  /-- Writes the line with nothing but printable characters, in pieces of a given length if any. -/
  | spell (length : Option Nat)
  | next
  | joinNext
  | hold
  | holdMore
  | recall
  | recallMore
  | exchange
  | clear
  | quit (silent : Bool) (code : Nat)
  /-- The line is written as often as `prints` says if something was replaced. -/
  | substitute (pattern : Option Regex) (replacement : List Part) (nth : Nat) (global : Bool)
      (prints : Nat)
  | transliterate (pairs : List (UInt8 × UInt8))

/-- A command with its addresses. -/
structure Instruction where
  selector : Selector := .always
  /-- The command is for the other lines. -/
  negated : Bool := false
  operation : Operation := .nothing

/-- A script. -/
structure Script where
  code : Array Instruction := #[]
  labels : List (List Char × Nat) := []
  /-- Lines are not written by themselves. -/
  silent : Bool := false
  /-- Nothing behind the line at hand is read ahead. -/
  unbuffered : Bool := false
  /-- The length of lines that are spelled out. -/
  length : Nat := 70

namespace Script

/-- The text up to an unescaped delimiter on the same line, where an escaped one stands for itself.
What was read is held last first. -/
def delimited (delimiter : Char) (read : List Char) : List Char → Option (List Char × List Char)
  | [] => none
  | ['\\'] => none
  | '\\' :: c :: rest =>
    if c = delimiter then delimited delimiter (c :: read) rest
    else delimited delimiter (c :: '\\' :: read) rest
  | c :: rest =>
    if c = delimiter then some (read.reverse, rest)
    else if c = '\n' then none
    else delimited delimiter (c :: read) rest

/-- A text in which escapes are replaced by the characters that they stand for. -/
def resolved : Nat → List Char → List Char
  | 0, text => text
  | fuel + 1, '\\' :: rest =>
    match escaped? rest, rest with
    | some (c, rest), _ => c :: resolved fuel rest
    | none, '\n' :: rest => '\n' :: resolved fuel rest
    | none, c :: rest => '\\' :: c :: resolved fuel rest
    | none, [] => ['\\']
  | fuel + 1, c :: rest => c :: resolved fuel rest
  | _, [] => []

/-- The expression that stands between delimiters, and the number of its groups; an empty one is the
one used last. -/
def pattern (style : Regex.Style) (text : List Char) : Option (Option Regex × Nat) :=
  if text.isEmpty then some (none, 9)
  else (Regex.parse style (resolved text.length text)).map fun (r, groups) => (some r, groups)

/-- The letters behind an expression that say how it matches. -/
def modifiers (style : Regex.Style) : List Char → Regex.Style × List Char
  | 'I' :: rest => modifiers { style with foldCase := true } rest
  | 'M' :: rest => modifiers { style with everyLine := true } rest
  | rest => (style, rest)

/-- Reads an address; the inner `none` says that there is none. -/
def address (style : Regex.Style) (text : List Char) : Option (Option Address × List Char) :=
  let expression (delimiter : Char) (rest : List Char) := do
    let (body, rest) ← delimited delimiter [] rest
    let (style, rest) := modifiers style rest
    let (r, _) ← pattern style body
    return (some (.pattern r), rest)
  match text with
  | '$' :: rest => some (some .last, rest)
  | '/' :: rest => expression '/' rest
  | '\\' :: c :: rest => expression c rest
  | _ =>
    match readDecimal text with
    | none => some (none, text)
    | some (n, '~' :: rest) =>
      match readDecimal rest with
      | some (step, rest) => some (some (.every n step), rest)
      | none => some (some (.every n 0), rest)
    | some (n, rest) => some (some (.line n), rest)

/-- A character that may stand between commands. -/
def isSeparator (c : Char) : Bool := c.isWhitespace || c = ';'

/-- Reads what selects the lines of a command. -/
def selector (style : Regex.Style) (text : List Char) : Option (Selector × Bool × List Char) := do
  let (first, rest) ← address style text
  let rest := rest.dropWhile isBlank
  let (selector, rest) : Selector × List Char ← match first, rest with
    | none, _ => pure (.always, rest)
    | some a, ',' :: rest =>
      let rest := rest.dropWhile isBlank
      match rest with
      | '+' :: rest =>
        let (n, rest) ← readDecimal rest
        pure (.range a (.after n), rest)
      | '~' :: rest =>
        let (n, rest) ← readDecimal rest
        pure (.range a (.multiple n), rest)
      | _ =>
        match ← address style rest with
        | (some b, rest) => pure (.range a (.address b), rest)
        | (none, _) => none
    | some a, _ => pure (.one a, rest)
  let rest := rest.dropWhile isBlank
  match rest with
  | '!' :: rest => return (selector, true, rest.dropWhile fun c => isBlank c || c = '!')
  | _ => return (selector, false, rest)

/-- The parts of a replacement. -/
def replacement : Nat → List Char → List Part
  | 0, _ => []
  | _, [] => []
  | fuel + 1, '&' :: rest => .group 0 :: replacement fuel rest
  | fuel + 1, '\\' :: rest =>
    match rest, escaped? rest with
    | _, some (c, rest) => .text [byteOf c] :: replacement fuel rest
    | c :: rest, none =>
      let part : Part :=
        if c.isDigit then .group (c.toNat - '0'.toNat)
        else match c with
          | 'U' => .casing .upper
          | 'L' => .casing .lower
          | 'E' => .casing .keep
          | 'u' => .casing .upperNext
          | 'l' => .casing .lowerNext
          | _ => .text [byteOf c]
      part :: replacement fuel rest
    | [], none => []
  | fuel + 1, c :: rest => .text [byteOf c] :: replacement fuel rest

/-- What follows the delimiters of a substitution. -/
structure Flags where
  nth : Option Nat := none
  global : Bool := false
  print : Bool := false
  /-- Lines are also written to a file. -/
  file : Option (List Char) := none
  foldCase : Bool := false
  everyLine : Bool := false

/-- The name of a file, which ends with the line. -/
def fileName (text : List Char) : List Char × List Char :=
  let text := text.dropWhile isBlank
  (text.takeWhile (· ≠ '\n'), text.dropWhile (· ≠ '\n'))

/-- Reads what follows the delimiters of a substitution, where no flag may be given twice. -/
def flags : Nat → Flags → List Char → Option (Flags × List Char)
  | 0, f, text => some (f, text)
  | fuel + 1, f, text =>
    match text with
    | 'g' :: rest => if f.global then none else flags fuel { f with global := true } rest
    | 'p' :: rest => if f.print then none else flags fuel { f with print := true } rest
    | 'i' :: rest => flags fuel { f with foldCase := true } rest
    | 'I' :: rest => flags fuel { f with foldCase := true } rest
    | 'm' :: rest => flags fuel { f with everyLine := true } rest
    | 'M' :: rest => flags fuel { f with everyLine := true } rest
    | 'w' :: rest =>
      let (name, rest) := fileName rest
      if name.isEmpty then none else some ({ f with file := some name }, rest)
    | _ =>
      match readDecimal text with
      | some (0, _) => none
      | some (n, rest) => if f.nth.isSome then none else flags fuel { f with nth := some n } rest
      | none => some (f, text)

/-- The file that is the standard output. -/
def standardOutput : List Char := "/dev/stdout".toList

/-- Reads a substitution after its letter. -/
def substitution (style : Regex.Style) : List Char → Option (Operation × List Char)
  | delimiter :: rest => do
    let (body, rest) ← delimited delimiter [] rest
    let (new, rest) ← delimited delimiter [] rest
    let (f, rest) ← flags (rest.length + 1) {} rest
    let (r, groups) ←
      pattern { style with foldCase := f.foldCase, everyLine := f.everyLine } body
    let parts := replacement (new.length + 1) new
    if parts.any fun
      | .group n => groups < n
      | _ => false then none
    let prints := (if f.print then 1 else 0) + if f.file = some standardOutput then 1 else 0
    return (.substitute r parts (f.nth.getD 1) f.global prints, rest)
  | [] => none

/-- The characters of a transliteration, with escapes resolved. -/
def unescaped (text : List Char) : List Char := plain (resolved text.length text)
where
  /-- Drops the backslashes that hide a character. -/
  plain : List Char → List Char
    | '\\' :: c :: rest => c :: plain rest
    | c :: rest => c :: plain rest
    | [] => []

/-- Reads a transliteration after its letter. -/
def transliteration : List Char → Option (Operation × List Char)
  | delimiter :: rest => do
    let (old, rest) ← delimited delimiter [] rest
    let (new, rest) ← delimited delimiter [] rest
    let old := bytesOf (unescaped old)
    let new := bytesOf (unescaped new)
    if old.length ≠ new.length then none
    return (.transliterate (old.zip new), rest)
  | [] => none

/-- Reads a text up to a line end that no backslash hides. What was read is held last first. -/
def textLine : Nat → List Char → List Char → List Char × List Char
  | 0, read, text => (read.reverse, text)
  | _, read, [] => (read.reverse, [])
  | fuel + 1, read, '\\' :: rest =>
    match rest, escaped? rest with
    | _, some (c, rest) => textLine fuel (c :: read) rest
    | c :: rest, none => textLine fuel (c :: read) rest
    | [], none => (read.reverse, [])
  | _, read, '\n' :: rest => (read.reverse, rest)
  | fuel + 1, read, c :: rest => textLine fuel (c :: read) rest

/-- Reads the text of a command that adds one; there has to be one, or a backslash. -/
def addedText (text : List Char) : Option (Bytes × List Char) :=
  let whole (text : List Char) : Option (Bytes × List Char) :=
    let (body, rest) := textLine (text.length + 1) [] text
    some (bytesOf body ++ [lf], rest)
  match text.dropWhile isBlank with
  | [] => none
  | '\n' :: _ => none
  | ['\\'] => some ([], [])
  | '\\' :: rest =>
    match rest.dropWhile isBlank with
    | '\n' :: rest => if rest.isEmpty then some ([lf], []) else whole rest
    | _ => whole rest
  | text => whole text

/-- Reads a label after blanks. -/
def label (text : List Char) : List Char × List Char :=
  let text := text.dropWhile isBlank
  let ends (c : Char) : Bool := isSeparator c || c = '\x7d'
  (text.takeWhile fun c => !ends c, text.dropWhile fun c => !ends c)

/-- Reads the operation of a command, which is no block. -/
def operation (style : Regex.Style) (c : Char) (rest : List Char) :
    Option (Operation × List Char) :=
  let plain (o : Operation) := some (o, rest)
  let branch (condition : Condition) :=
    let (name, rest) := label rest
    some (Operation.branch condition name, rest)
  let number (make : Option Nat → Operation) :=
    let rest := rest.dropWhile isBlank
    match readDecimal rest with
    | some (n, rest) => some (make (some n), rest)
    | none => some (make none, rest)
  let added (make : Bytes → Operation) := (addedText rest).map fun (text, rest) => (make text, rest)
  let file (make : List Char → Operation) :=
    let (name, rest) := fileName rest
    if name.isEmpty then none else some (make name, rest)
  match c with
  | 's' => substitution style rest
  | 'y' => transliteration rest
  | 'a' => added .append
  | 'i' => added .insert
  | 'c' => added .change
  | 'b' => branch .always
  | 't' => branch .replaced
  | 'T' => branch .unreplaced
  | 'q' => number fun code => .quit false (code.getD 0)
  | 'Q' => number fun code => .quit true (code.getD 0)
  | 'l' => number .spell
  | 'd' => plain .delete
  | 'D' => plain .deleteFirst
  | 'p' => plain .write
  | 'P' => plain .writeFirst
  | '=' => plain .writeNumber
  | 'F' => plain .writeName
  | 'n' => plain .next
  | 'N' => plain .joinNext
  | 'h' => plain .hold
  | 'H' => plain .holdMore
  | 'g' => plain .recall
  | 'G' => plain .recallMore
  | 'x' => plain .exchange
  | 'z' => plain .clear
  -- Files are empty here.
  | 'r' => file fun _ => .append []
  | 'w' => file fun name => if name = standardOutput then .write else .nothing
  | 'v' => some (.nothing, (label rest).2)
  | _ => none

/-- A command may end here. -/
def endsCommand (text : List Char) : Bool :=
  match text.dropWhile isBlank with
  | [] => true
  | c :: _ => isSeparator c || c = '\x7d' || c = '#'

/-- Reads commands. `blocks` holds where blocks began, the innermost first. -/
def commands (style : Regex.Style) :
    Nat → Script → List Nat → List Char → Option Script
  | 0, _, _, _ => none
  | fuel + 1, script, blocks, text => do
    let place := script.code.size
    match text.dropWhile isSeparator with
    | [] => if blocks.isEmpty then some script else none
    | '#' :: rest => commands style fuel script blocks (rest.dropWhile (· ≠ '\n'))
    | '\x7d' :: rest =>
      match blocks with
      | [] => none
      | start :: blocks =>
        let code := script.code.modify start fun i => { i with operation := .block place }
        if endsCommand rest then commands style fuel { script with code } blocks rest else none
    | ':' :: rest =>
      let (name, rest) := label rest
      if name.isEmpty ∨ (script.labels.lookup name).isSome then none
      commands style fuel { script with labels := (name, place) :: script.labels } blocks rest
    | text =>
      let (selector, negated, rest) ← selector style text
      match rest with
      | [] => none
      | '\x7b' :: rest =>
        let code := script.code.push { selector, negated, operation := .block place }
        commands style fuel { script with code } (place :: blocks) rest
      | c :: rest =>
        let (operation, rest) ← operation style c rest
        let adds : Bool := match operation with
          | .append _ => true
          | .insert _ => true
          | .change _ => true
          | _ => false
        if !adds && !endsCommand rest then none
        let code := script.code.push { selector, negated, operation }
        commands style fuel { script with code } blocks rest

/-- The script that a text stands for; `script` says how it runs. -/
def parse? (style : Regex.Style) (script : Script) (text : List Char) : Option Script :=
  let silent := script.silent || match text with
    | '#' :: 'n' :: '\n' :: _ => true
    | ['#', 'n'] => true
    | _ => false
  commands style (text.length + 2) { script with silent } [] text

/-- Every branch leads to a place in the script. -/
def closed (s : Script) : Bool :=
  s.code.all fun i =>
    match i.operation with
    | .branch _ label => label.isEmpty || (s.labels.lookup label).isSome
    | _ => true

/-- The options of an editor. -/
def choices : List Choice :=
  [⟨'n', "quiet", false⟩, ⟨'n', "silent", false⟩, ⟨'e', "expression", true⟩,
    ⟨'E', "regexp-extended", false⟩, ⟨'r', "", false⟩, ⟨'s', "separate", false⟩,
    ⟨'u', "unbuffered", false⟩, ⟨'l', "line-length", true⟩, ⟨'b', "binary", false⟩,
    ⟨'S', "sandbox", false⟩, ⟨'p', "posix", false⟩]

/-- The script that an option adds to; its text comes from elsewhere. -/
def add (script : Script) : Char × Bytes → Option Script
  | ('n', _) => some { script with silent := true }
  | ('u', _) => some { script with unbuffered := true }
  | ('l', value) =>
    match readDecimal (charsOf value) with
    | some (length, []) => some { script with length }
    | _ => none
  | _ => some script

/-- The script that some arguments ask for, or the exit code of a refusal. -/
def ofArguments (args : List Bytes) : Except Nat Script := do
  let refused {α : Type} : Option α → Except Nat α := fun
    | some a => .ok a
    | none => .error 1
  let given ← refused (Arguments.scan? choices true args)
  let extended := given.options.any fun (letter, _) => letter = 'E' || letter = 'r'
  let parts := given.options.filterMap fun (letter, value) =>
    if letter = 'e' then some value else none
  let (parts, inputs) ← match parts, given.operands with
    | [], part :: inputs => pure ([part], inputs)
    | [], [] => throw 1
    | parts, inputs => pure (parts, inputs)
  let start ← refused (given.options.foldlM add {})
  let script ← refused (parse? { extended } start (['\n'].intercalate (parts.map charsOf)))
  if !script.closed then throw 4
  if !inputs.all fun name => charsOf name = ['-'] then throw 2
  return script

end Script

end Coprocess.Program
