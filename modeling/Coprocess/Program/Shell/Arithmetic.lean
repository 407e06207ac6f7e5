import Coprocess.Program.Script

/-!
# Arithmetic

Expressions over words of 64 bits with variables.

* `Expression`, `Expression.parse?`;
* `Expression.value`: the value, and the variables afterwards.
-/

namespace Coprocess.Program.Shell

/-- Variables and their values. -/
abbrev Bindings := List (List Char × List Char)

/-- The variables after an assignment. -/
def Bindings.set (vars : Bindings) (name value : List Char) : Bindings :=
  (name, value) :: List.filter (·.1 ≠ name) vars

/-- An arithmetic expression. -/
inductive Expression
  | number (n : Int)
  | variable (name : List Char)
  | unary (operator : String) (a : Expression)
  | binary (operator : String) (a b : Expression)
  | choice (test a b : Expression)
  /-- Assigns a value, combined with the old one by an operator that is not empty. -/
  | assign (name : List Char) (operator : String) (a : Expression)

namespace Expression

/-! ## Reading -/

/-- The operators of each level, the loosest first; longer ones come before those they start with.
-/
def levels : List (List String) :=
  [["||"], ["&&"], ["|"], ["^"], ["&"], ["==", "!="], ["<=", ">=", "<", ">"], ["<<", ">>"],
    ["+", "-"], ["*", "/", "%"]]

/-- Operators with which a shorter one could be confused. -/
def longer : List String := ["||", "&&", "<<", ">>", "<=", ">=", "==", "!="]

/-- The operators that an equals sign may follow in an assignment. -/
def assigning : List String := ["<<", ">>", "+", "-", "*", "/", "%", "&", "|", "^", ""]

/-- Skips blank space. -/
def skip (text : List Char) : List Char := text.dropWhile Char.isWhitespace

/-- A text starts with an operator; what follows it. -/
def after? (operator : String) (text : List Char) : Option (List Char) :=
  let o := operator.toList
  if text.take o.length = o then some (text.drop o.length) else none

/-- The operator of a level with which a text starts. -/
def operator? (level : List String) (text : List Char) : Option (String × List Char) :=
  level.findSome? fun o =>
    match after? o text with
    | none => none
    | some rest =>
      let hidden := longer.any fun l => l.length > o.length && (after? l text).isSome
      let assigns := rest.head? = some '=' && o.length = 1 && o ≠ "<" && o ≠ ">"
      if hidden || assigns then none else some (o, rest)

/-- The operator of an assignment with which a text starts. -/
def assignment? (text : List Char) : Option (String × List Char) :=
  assigning.findSome? fun o =>
    match after? (o ++ "=") text with
    | some ('=' :: _) => none
    | some rest => some (o, rest)
    | none => none

/-- A number with which a text starts: decimal, octal after a zero, or hexadecimal. -/
def number? (text : List Char) : Option (Nat × List Char) :=
  match text with
  | '0' :: x :: rest =>
    if x = 'x' ∨ x = 'X' then
      let isHex (c : Char) : Bool := c.isDigit || ('a' ≤ c.toLower && c.toLower ≤ 'f')
      let digits := rest.takeWhile isHex
      let value (c : Char) : Nat := if c.isDigit then c.toNat - 48 else c.toLower.toNat - 87
      some (digits.foldl (fun n c => n * 16 + value c) 0, rest.drop digits.length)
    else some (readOctal text.length text)
  | _ => readDecimal text

/-- A character of a name. -/
def inName (c : Char) : Bool := c.isAlphanum || c = '_'

/-- What is read next. -/
inductive Goal
  | whole
  /-- A chain of the operators of a level and of those that bind tighter. -/
  | level (rest : List (List String))
  | atom

/-- Reads an expression. -/
def read : Nat → Goal → List Char → Option (Expression × List Char)
  | 0, _, _ => none
  | fuel + 1, goal, text => do
    let text := skip text
    match goal with
    | .whole =>
      let name := text.takeWhile inName
      let rest := skip (text.drop name.length)
      let named : Bool := name.head?.any fun c => !c.isDigit
      match if named then assignment? rest else none with
      | some (operator, rest) =>
        let (a, rest) ← read fuel .whole rest
        return (.assign name operator a, rest)
      | none =>
        let (test, rest) ← read fuel (.level levels) text
        match skip rest with
        | '?' :: rest =>
          let (a, rest) ← read fuel .whole rest
          let (b, rest) ← read fuel .whole (← after? ":" (skip rest))
          return (.choice test a b, rest)
        | rest => return (test, rest)
    | .level [] => read fuel .atom text
    | .level (operators :: tighter) =>
      let (a, rest) ← read fuel (.level tighter) text
      chain fuel operators (read fuel (.level tighter)) a rest
    | .atom =>
      match text with
      | '(' :: rest =>
        let (a, rest) ← read fuel .whole rest
        return (a, ← after? ")" (skip rest))
      | '-' :: rest => return (← read fuel .atom rest).map (.unary "-") id
      | '+' :: rest => read fuel .atom rest
      | '!' :: rest => return (← read fuel .atom rest).map (.unary "!") id
      | '~' :: rest => return (← read fuel .atom rest).map (.unary "~") id
      | _ =>
        match number? text with
        | some (n, rest) => return (.number n, rest)
        | none =>
          let name := text.takeWhile inName
          if name.isEmpty then none else return (.variable name, text.drop name.length)
where
  /-- Reads operands that operators join to `a`. -/
  chain : Nat → List String → (List Char → Option (Expression × List Char)) → Expression →
      List Char → Option (Expression × List Char)
    | 0, _, _, _, _ => none
    | fuel + 1, operators, next, a, text =>
      match operator? operators (skip text) with
      | none => some (a, text)
      | some (o, rest) => do
        let (b, rest) ← next rest
        chain fuel operators next (.binary o a b) rest

/-- The expression that a text stands for; an empty one is zero. -/
def parse? (text : List Char) : Option Expression := do
  if (skip text).isEmpty then return .number 0
  let (e, rest) ← read (16 * text.length + 64) .whole text
  if (skip rest).isEmpty then some e else none

/-! ## Values -/

/-- A number as words of 64 bits hold it. -/
def wrapped (n : Int) : Int := n.bmod UInt64.size

/-- One for what holds, else zero. -/
def truth (b : Bool) : Int := if b then 1 else 0

/-- The number without a sign that has the same 64 bits. -/
def bits (n : Int) : Nat := (n % UInt64.size).toNat

/-- What an operator makes of two numbers; `none` for a division by zero. -/
def combine (operator : String) (a b : Int) : Option Int :=
  match operator with
  | "+" => some (wrapped (a + b))
  | "-" => some (wrapped (a - b))
  | "*" => some (wrapped (a * b))
  | "/" => if b = 0 then none else some (wrapped (a.tdiv b))
  | "%" => if b = 0 then none else some (wrapped (a.tmod b))
  | "==" => some (truth (a = b))
  | "!=" => some (truth (a ≠ b))
  | "<" => some (truth (a < b))
  | ">" => some (truth (b < a))
  | "<=" => some (truth (a ≤ b))
  | ">=" => some (truth (b ≤ a))
  | "<<" => some (wrapped (a <<< (bits b % 64)))
  | ">>" => some (a >>> (bits b % 64))
  | "&" => some (wrapped (bits a &&& bits b : Nat))
  | "|" => some (wrapped (bits a ||| bits b : Nat))
  | "^" => some (wrapped (bits a ^^^ bits b : Nat))
  | _ => none

/-- The number that a variable holds; one that is not set holds zero. -/
def lookup (vars : Bindings) (name : List Char) : Option Int :=
  match List.lookup name vars with
  | none => some 0
  | some text =>
    if (skip text).isEmpty then some 0
    else match skip text with
      | '-' :: rest => (number? rest).bind fun (n, rest) =>
        if rest.isEmpty then some (-(n : Int)) else none
      | rest => (number? rest).bind fun (n, rest) => if rest.isEmpty then some (n : Int) else none

/-- The value of an expression and the variables afterwards; `none` when there is no value. -/
def value (vars : Bindings) : Expression → Option (Int × Bindings)
  | number n => some (wrapped n, vars)
  | .variable name => return (← lookup vars name, vars)
  | unary operator a => do
    let (n, vars) ← value vars a
    match operator with
    | "-" => return (wrapped (-n), vars)
    | "!" => return (truth (n = 0), vars)
    | _ => return (-n - 1, vars)
  | binary "||" a b => do
    let (n, vars) ← value vars a
    if n ≠ 0 then return (1, vars)
    let (m, vars) ← value vars b
    return (truth (m ≠ 0), vars)
  | binary "&&" a b => do
    let (n, vars) ← value vars a
    if n = 0 then return (0, vars)
    let (m, vars) ← value vars b
    return (truth (m ≠ 0), vars)
  | binary operator a b => do
    let (n, vars) ← value vars a
    let (m, vars) ← value vars b
    return (← combine operator n m, vars)
  | choice test a b => do
    let (n, vars) ← value vars test
    if n ≠ 0 then value vars a else value vars b
  | assign name operator a => do
    let (n, vars) ← value vars a
    let n ← if operator.isEmpty then some n else do combine operator (← lookup vars name) n
    return (n, vars.set name (toString n).toList)

end Expression

end Coprocess.Program.Shell
