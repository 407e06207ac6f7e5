import Coprocess.Program.Shell.Arithmetic
import Coprocess.Program.Shell.Glob
import Coprocess.Program.Shell.Syntax

/-!
# Expansion of words

* `Environment`: what words may refer to;
* `Environment.fields`: the fields that words expand to; `Environment.single`: a word as one text;
* `Environment.glob`: a word as a pattern.
-/

namespace Coprocess.Program.Shell

/-- What the words of a script refer to. -/
structure Environment where
  bindings : Bindings := []
  /-- The positional parameters from number 1 on. -/
  parameters : List (List Char) := []
  /-- The parameter with number 0. -/
  name : List Char := []
  /-- The exit code of the last command. -/
  status : Nat := 0
  /-- A parameter that is not set is an error. -/
  strict : Bool := false
  /-- The first failure ends the script. -/
  fragile : Bool := false
  functions : List (List Char × Statement) := []
  /-- What is done at signals; number 0 stands for the end of the script. -/
  traps : List (Nat × List Char) := []
  /-- The exit codes of what ran in the background, the latest first. -/
  background : List Nat := []

/-- The number that stands for the process of the shell. -/
def processNumber : List Char := ['2']

/-- The number of the process that ran in the background after `count` others. -/
def backgroundNumber (count : Nat) : List Char := (toString (3 + count)).toList

/-- A part of the text that a word expands to. -/
inductive Atom
  | char (c : Char) (quoted : Bool)
  /-- A character that stems from an expansion outside of quotes. -/
  | loose (c : Char)
  /-- A field that may be empty starts here. -/
  | present
  /-- A new field starts here. -/
  | next
  /-- No field is here, unless something else is in it. -/
  | absent

namespace Environment

/-- The value of a parameter that is no list. -/
def value? (env : Environment) (name : List Char) : Option (List Char) :=
  match name with
  | ['?'] => some (toString env.status).toList
  | ['#'] => some (toString env.parameters.length).toList
  | ['$'] => some processNumber
  | ['!'] =>
    match env.background.length with
    | 0 => none
    | count + 1 => some (backgroundNumber count)
  | ['-'] => some []
  | ['0'] => some env.name
  | _ =>
    match readDecimal name with
    | some (n, []) => env.parameters[n - 1]?
    | _ => List.lookup name env.bindings

/-- The characters that separate fields. -/
def separators (env : Environment) : List Char :=
  (List.lookup "IFS".toList env.bindings).getD [' ', '\t', '\n']

/-- Characters of a value. -/
def atoms (quoted : Bool) (text : List Char) : List Atom :=
  text.map fun c => if quoted then .char c true else .loose c

/-- The positional parameters, each as a field, or joined. -/
def allParameters (env : Environment) (separate quoted : Bool) : List Atom :=
  if separate || !quoted then
    let fields := env.parameters.map fun p =>
      (if quoted then [Atom.present] else []) ++ atoms quoted p
    (fields.intersperse [.next]).flatten
  else
    let joint := env.separators.take 1
    atoms true ((env.parameters.intersperse joint).flatten)

/-- A name that stands for all positional parameters. -/
def isList (name : List Char) : Bool := name = ['@'] || name = ['*']

/-- The text of atoms, without the ends of fields. -/
def plain (l : List Atom) : List Char :=
  l.flatMap fun
    | .char c _ => [c]
    | .loose c => [c]
    | .present => []
    | .absent => []
    | .next => [' ']

/-- The characters of atoms, each with whether it is quoted. -/
def marked (l : List Atom) : List (Char × Bool) :=
  l.flatMap fun
    | .char c quoted => [(c, quoted)]
    | .loose c => [(c, false)]
    | .present => []
    | .absent => []
    | .next => [(' ', false)]

/-- What a word expands to, and the environment afterwards; a message if it cannot be expanded. -/
def expand (env : Environment) : Nat → Phrase → Except String (List Atom × Environment)
  | 0, _ => .error "nesting"
  | _, [] => .ok ([], env)
  | fuel + 1, segment :: rest => do
    let (first, env) : List Atom × Environment ← match segment with
      | .literal text quoted =>
        pure ((if quoted then [Atom.present] else []) ++ text.map (.char · quoted), env)
      | .captured text quoted => pure (atoms quoted text, env)
      | .substitution _ _ => pure ([], env)
      | .arithmetic body quoted =>
        let (text, env) ← env.expand fuel body
        match (Expression.parse? (plain text)).bind (Expression.value env.bindings) with
        | some (n, bindings) => pure (atoms quoted (toString n).toList, { env with bindings })
        | none => .error ("arithmetic expression: " ++ String.ofList (plain text))
      | .parameter name use argument quoted =>
        let current := if isList name then
            if env.parameters.isEmpty then none else some (env.allParameters (name = ['@']) quoted)
          else (env.value? name).map (atoms quoted)
        let lacks (orEmpty : Bool) : Bool :=
          current.all fun l => orEmpty && (plain l).isEmpty
        let mark := if !quoted then []
          else if !isList name then [Atom.present]
          else if name = ['@'] && env.parameters.isEmpty then [Atom.absent]
          else []
        let optional : Bool := match use with
          | .value => false
          | .length => false
          | .trimFront _ => false
          | .trimBack _ => false
          | _ => true
        if env.strict && current.isNone && !optional && !isList name then
          throw (String.ofList name ++ ": parameter not set")
        let trimmed (cut : Glob → List Char → List Char) := do
          let (text, env) ← env.expand fuel argument
          let text := marked text
          let g := Glob.compile (text.length + 1) text
          pure (mark ++ atoms quoted (cut g (plain (current.getD []))), env)
        match use with
        | .value => pure (mark ++ current.getD [], env)
        | .length =>
          let n := if isList name then env.parameters.length else (plain (current.getD [])).length
          pure (atoms quoted (toString n).toList, env)
        | .fallback orEmpty =>
          if lacks orEmpty then do
            let (text, env) ← env.expand fuel argument
            pure (mark ++ text, env)
          else pure (mark ++ current.getD [], env)
        | .assign orEmpty =>
          if lacks orEmpty then do
            let (text, env) ← env.expand fuel argument
            pure (mark ++ atoms quoted (plain text),
              { env with bindings := env.bindings.set name (plain text) })
          else pure (mark ++ current.getD [], env)
        | .demand orEmpty =>
          if lacks orEmpty then do
            let (text, _) ← env.expand fuel argument
            let reason := if text.isEmpty then "parameter not set"
              else String.ofList (plain text)
            .error (String.ofList name ++ ": " ++ reason)
          else pure (mark ++ current.getD [], env)
        | .instead orEmpty =>
          if lacks orEmpty then pure (mark, env)
          else do
            let (text, env) ← env.expand fuel argument
            pure (mark ++ text, env)
        | .trimFront longest => trimmed (Glob.trimFront · longest)
        | .trimBack longest => trimmed (Glob.trimBack · longest)
    let (more, env) ← env.expand fuel rest
    return (first ++ more, env)

/-- The depth up to which words are expanded. -/
def depth (w : Phrase) : Nat := w.length + 1000

/-- The state of splitting: the fields that are complete, last first, and the one under way. -/
structure Splitting where
  fields : List (List Char) := []
  /-- The characters of the field under way, last first. -/
  current : Option (List Char) := none
  /-- The last field ended at blank space, so that a separator may follow. -/
  afterBlank : Bool := false

/-- Ends the field under way, if there is one. -/
def Splitting.cut (s : Splitting) : Splitting :=
  match s.current with
  | some text => { s with fields := text.reverse :: s.fields, current := none }
  | none => s

/-- Takes an atom into account. -/
def Splitting.add (separators : List Char) (s : Splitting) : Atom → Splitting
  | .present => { s with current := some (s.current.getD []), afterBlank := false }
  | .absent => if s.current = some [] then { s with current := none } else s
  | .next => { s.cut with afterBlank := false }
  | .char c _ => { s with current := some (c :: s.current.getD []), afterBlank := false }
  | .loose c =>
    if !separators.contains c then
      { s with current := some (c :: s.current.getD []), afterBlank := false }
    else if c.isWhitespace then
      match s.current with
      | some _ => { s.cut with afterBlank := true }
      | none => s
    else
      match s.current with
      | some _ => { s.cut with afterBlank := false }
      | none =>
        if s.afterBlank then { s with afterBlank := false }
        else { s with fields := [] :: s.fields }

/-- The fields that atoms make. -/
def split (separators : List Char) (l : List Atom) : List (List Char) :=
  ((l.foldl (Splitting.add separators) {}).cut).fields.reverse

/-- The fields that words expand to. -/
def fields (env : Environment) : List Phrase → Except String (List (List Char) × Environment)
  | [] => .ok ([], env)
  | w :: rest => do
    let (text, env) ← env.expand (depth w) w
    let (more, env) ← fields env rest
    return (split env.separators text ++ more, env)

/-- A word as one text. -/
def single (env : Environment) (w : Phrase) : Except String (List Char × Environment) := do
  let (text, env) ← env.expand (depth w) w
  return (plain text, env)

/-- A word as a pattern. -/
def glob (env : Environment) (w : Phrase) : Except String (Glob × Environment) := do
  let (text, env) ← env.expand (depth w) w
  let text := marked text
  return (Glob.compile (text.length + 1) text, env)

end Environment

end Coprocess.Program.Shell
