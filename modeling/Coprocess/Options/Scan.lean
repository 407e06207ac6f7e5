import Coprocess.Options.Spec

/-!
# Reading words of a command line

Words are read from the left. An option that takes values gets the words that follow it, as long as
they do not spell options; its values are checked when the next option or operand is met. In front
of a program, a word that looks like an option but is none starts the program.

* `Word`: what a word looks like;
* `Scan`: the options read so far;
* `Scan.words`: reads the words of one level up to its operands.
-/

namespace Coprocess

/-- What a word looks like. -/
inductive Word
  /-- Two hyphens: operands follow. -/
  | escape
  /-- A name after two hyphens, and what follows its equals sign. -/
  | long (name : Bytes) (value : Option Bytes)
  /-- Letters after a hyphen. -/
  | short (letters : Bytes)
  | plain

/-- A hyphen. -/
def hyphen : UInt8 := 45

/-- An equals sign. -/
def equals : UInt8 := 61

/-- What a word looks like. -/
def Word.of (w : Bytes) : Word :=
  match w with
  | 45 :: 45 :: [] => .escape
  | 45 :: 45 :: rest =>
    match rest.dropWhile (· ≠ equals) with
    | [] => .long rest none
    | _ :: value => .long (rest.takeWhile (· ≠ equals)) (some value)
  | 45 :: c :: rest => .short (c :: rest)
  | _ => .plain

/-- The options read so far on a level. -/
structure Scan where
  /-- The options given, each with the values of all its appearances. -/
  given : List (OptionKey × List Bytes) := []
  /-- An option or operand whose values have not been checked. -/
  pending : Option (OptionSpec × List Bytes) := none
  /-- The next word may be a value of the pending option. -/
  waiting : Bool := false

namespace Scan

/-- An option has been given. -/
def has (s : Scan) (key : OptionKey) : Bool := s.given.any (·.1 = key)

/-- The values of an option, in order. -/
def values (s : Scan) (key : OptionKey) : List Bytes :=
  (s.given.filter (·.1 = key)).flatMap (·.2)

/-- How often an option was given. -/
def count (s : Scan) (key : OptionKey) : Nat := (s.given.filter (·.1 = key)).length

/-- An option may be given once. -/
def checkRepeated (s : Scan) (o : OptionSpec) : Except UsageError Unit :=
  if s.has o.key then .error (.argumentConflict o.title o.title) else .ok ()

/-- The option takes all of some values. -/
def checkValues (o : OptionSpec) (values : List Bytes) : Except UsageError Unit :=
  values.forM fun value => (o.key.check value).mapError (·.toUsage o value)

/-- Takes an option with its values into account. A missing value is found first, then a conflict,
then a bad value. -/
def record (s : Scan) (o : OptionSpec) (values : List Bytes) : Except UsageError Scan := do
  let missing : UsageError := .invalidValue o.title "" o.key.words
  match o.kind with
  | .stop outcome => throw outcome
  | .count => return { s with given := s.given ++ [(o.key, [])] }
  | .flag =>
    s.checkRepeated o
    return { s with given := s.given ++ [(o.key, [])] }
  | .value =>
    if values.isEmpty then throw missing
    s.checkRepeated o
    checkValues o values
    return { s with given := s.given ++ [(o.key, values)] }
  | .values =>
    if values.isEmpty then throw missing
    checkValues o values
    return { s with given := s.given ++ [(o.key, values)] }

/-- Takes the pending option into account. -/
def settle (s : Scan) : Except UsageError Scan :=
  match s.pending with
  | none => .ok s
  | some (o, values) => { s with pending := none, waiting := false }.record o values

/-- An option with no value of its own, or with one that is attached to it. -/
def react (s : Scan) (o : OptionSpec) (values : List Bytes) : Except UsageError Scan := do
  (← s.settle).record o values

/-- An option takes values. -/
def takesValue (o : OptionSpec) : Bool :=
  match o.kind with
  | .value => true
  | .values => true
  | _ => false

/-- An option that takes values, the first of which may be attached to it. -/
def await (s : Scan) (o : OptionSpec) (attached : Option Bytes) : Except UsageError Scan := do
  match attached with
  | some value => s.react o [value]
  | none => return { (← s.settle) with pending := some (o, []), waiting := true }

/-- Reads a word as a value of the pending option. -/
def addValue (s : Scan) (w : Bytes) : Scan :=
  match s.pending with
  | none => s
  | some (o, values) =>
    { s with pending := some (o, values ++ [w]), waiting := o.kind = .values }

/-- Reads a long option; `none` when the word may be something else. -/
def long (l : Level) (s : Scan) (name : Bytes) (value : Option Bytes) :
    Except UsageError (Option Scan) := do
  let unknown : UsageError := .unknownArgument ("--" ++ Utf8.lossyString name)
  if (Utf8.decode name).toBool = false then throw unknown
  match l.long? name with
  | some o =>
    if takesValue o then some <$> s.await o value
    else match value with
      | some value => throw (.tooManyValues o.title (Utf8.lossyString value))
      | none => some <$> s.react o []
  | none => if l.operands = .program then return none else throw unknown

/-- Reads letters that spell options; the rest of the word may be the value of one of them. -/
def letters (l : Level) (s : Scan) : List Utf8.Piece → Except UsageError Scan
  | [] => .ok s
  | p :: rest =>
    match p.char?.bind l.short? with
    | none =>
      .error (.unknownArgument (String.ofList ['-', p.char?.getD Utf8.replacement]))
    | some o =>
      if takesValue o then
        let tail := rest.flatMap fun
          | .char c => Utf8.encodeChar c
          | .invalid s => s
          | .truncated s => s
        let value := if tail.head? = some equals then tail.tail else tail
        s.await o (if tail.isEmpty then none else some value)
      else do letters l (← s.react o []) rest

/-- Reads short options; `none` when the word may be something else. -/
def short (l : Level) (s : Scan) (word : Bytes) : Except UsageError (Option Scan) :=
  let pieces := Utf8.pieces word
  if l.operands = .program ∧ pieces.any fun p => (p.char?.bind l.short?).isNone then .ok none
  else some <$> letters l s pieces

/-- Where the reading of a level ends. -/
inductive Stop
  | ended
  /-- A program and its arguments. -/
  | program (words : List Bytes)
  /-- The word for a command, and the words after it. -/
  | command (name : CommandName) (rest : List Bytes)

/-- How the name of a shell is given. -/
def shellSpec : OptionSpec := ⟨.shell, .value, none, "", "SHELL"⟩

/-- The name of a command, or the word for help. -/
def hasHelp (w : Bytes) : Bool := (CommandName.ofWord? w).isSome || w = helpWord

/-- Reads an operand that is no command. `escaped` tells that two hyphens stood before it. -/
def operand (l : Level) (s : Scan) (escaped : Bool) (w : Bytes) : Except UsageError Scan := do
  match l.operands with
  | .shell =>
    let seen := s.has .shell || s.pending.any (·.1.key = .shell)
    if seen then throw (.unknownArgument (Utf8.lossyString w))
    return { (← s.settle) with pending := some (shellSpec, [w]), waiting := false }
  | _ =>
    let word := Utf8.lossyString w
    if escaped ∧ hasHelp w then throw (.unknownArgument word)
    throw (.invalidSubcommand word)

/-- Reads operands after two hyphens. -/
def operands (l : Level) (s : Scan) (words : List Bytes) : Except UsageError (Scan × Stop) := do
  match l.operands, words with
  | _, [] => return (s, .ended)
  | .program, _ => return (← s.settle, .program words)
  | _, _ => return (← words.foldlM (fun s w => s.operand l true w) s, .ended)

/-- Answers the word that asks for help: a word after it may name a command. -/
def help : List Bytes → UsageError
  | [] => .displayHelp
  | w :: rest =>
    if !hasHelp w then .invalidSubcommand (Utf8.lossyString w)
    else match rest with
      | [] => .displayHelp
      | w :: _ => .invalidSubcommand (Utf8.lossyString w)

/-- Reads the words of a level up to its operands. -/
def words (l : Level) : List Bytes → Scan → Except UsageError (Scan × Stop)
  | [], s => .ok (s, .ended)
  | w :: rest, s => do
    if l.operands = .command ∧ !s.waiting then
      if w = helpWord then throw (help rest)
      if let some name := CommandName.ofWord? w then return (s, .command name rest)
    let option : Option Scan ← match Word.of w with
      | .escape => return ← s.operands l rest
      | .long name value => s.long l name value
      | .short word => s.short l word
      | .plain => pure none
    match option with
    | some s => words l rest s
    | none =>
      if s.waiting then words l rest (s.addValue w)
      else if l.operands = .program then return (← s.settle, .program (w :: rest))
      else words l rest (← s.operand l false w)

end Scan

end Coprocess
