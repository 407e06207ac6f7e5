import Coprocess.Program.Script

/-!
# Options among the arguments of a program

* `Choice`: an option that a program knows;
* `Arguments`: the options that were given, each with its value, and the operands;
* `Arguments.scan?`.
-/

namespace Coprocess.Program

/-- An option that a program knows. -/
structure Choice where
  letter : Char
  /-- The long form, after two dashes. -/
  word : String := ""
  takesValue : Bool := false

/-- The options that were given, each with its value, and the operands. -/
structure Arguments where
  options : List (Char × Bytes) := []
  operands : List Bytes := []

namespace Arguments

/-- Puts an operand in front. -/
def operand (arg : Bytes) (a : Arguments) : Arguments := { a with operands := arg :: a.operands }

/-- What an argument that starts with a dash says: options with their values, and the option whose
value is the next argument. -/
abbrev Said := List (Char × Bytes) × Option Char

/-- Reads letters, of which one that takes a value takes the rest. -/
def letters (choices : List Choice) : List Char → Option Said
  | [] => some ([], none)
  | c :: rest =>
    match choices.find? (·.letter = c) with
    | none => none
    | some choice =>
      if choice.takesValue then
        if rest.isEmpty then some ([], some c) else some ([(c, bytesOf rest)], none)
      else (letters choices rest).map fun (options, open?) => ((c, []) :: options, open?)

/-- The option with a long form, or the only one whose long form starts so. -/
def named? (choices : List Choice) (word : List Char) : Option Choice :=
  match choices.find? (·.word.toList = word) with
  | some choice => some choice
  | none =>
    match choices.filter fun c => word.isPrefixOf c.word.toList with
    | [choice] => some choice
    | _ => none

/-- Reads a long form, perhaps with a value after an equals sign. -/
def long (choices : List Choice) (text : List Char) : Option Said :=
  let word := text.takeWhile (· ≠ '=')
  match named? choices word, text.drop word.length with
  | none, _ => none
  | some choice, [] =>
    some (if choice.takesValue then ([], some choice.letter) else ([(choice.letter, [])], none))
  | some choice, _ :: value =>
    if choice.takesValue then some ([(choice.letter, bytesOf value)], none) else none

/-- Reads arguments. Options may follow operands if `mixed`; `none` for an option that the program
does not know. -/
def scan? (choices : List Choice) (mixed : Bool) : List Bytes → Option Arguments
  | [] => some {}
  | arg :: rest =>
    let add (said : Option Said) : Option Arguments :=
      match said, rest with
      | some (options, none), rest =>
        (scan? choices mixed rest).map fun a => { a with options := options ++ a.options }
      | some (options, some letter), value :: rest =>
        (scan? choices mixed rest).map fun a =>
          { a with options := options ++ (letter, value) :: a.options }
      | _, _ => none
    match charsOf arg with
    | ['-', '-'] => some { operands := rest }
    | '-' :: '-' :: text => add (long choices text)
    | '-' :: c :: text => add (letters choices (c :: text))
    | _ =>
      if mixed then (scan? choices mixed rest).map (operand arg)
      else some { operands := arg :: rest }

/-- No operand names anything but the standard input. -/
def readsInput (a : Arguments) : Bool := a.operands.all fun arg => charsOf arg = ['-']

end Arguments

end Coprocess.Program
