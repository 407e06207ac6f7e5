import Coprocess.Program.Shell.Inline

/-!
# Shell scripts

* `Segment`: a part of a word; `Redirection`, `Statement`;
* `Statement.parse?`: the statement that a script is.
-/

namespace Coprocess.Program.Shell

/-- What is done with the value of a parameter. -/
inductive ParameterUse
  | value
  | length
  /-- A word stands in for a parameter that is not set, or empty if `orEmpty`. -/
  | fallback (orEmpty : Bool)
  /-- The same, and the word is assigned. -/
  | assign (orEmpty : Bool)
  /-- A parameter that is not set is an error. -/
  | demand (orEmpty : Bool)
  /-- A word stands in for a parameter that is set. -/
  | instead (orEmpty : Bool)
  /-- A pattern is cut off at the front. -/
  | trimFront (longest : Bool)
  | trimBack (longest : Bool)

/-- A part of a word. -/
inductive Segment
  | literal (text : List Char) (quoted : Bool)
  | parameter (name : List Char) (use : ParameterUse) (argument : List Segment) (quoted : Bool)
  | arithmetic (body : List Segment) (quoted : Bool)
  /-- The output of a script. -/
  | substitution (script : List Char) (quoted : Bool)
  /-- The output of a script that has run. -/
  | captured (text : List Char) (quoted : Bool)

/-- The parts of a word. -/
abbrev Phrase := List Segment

/-- Which way a file is opened. -/
inductive Opening
  | reading
  | writing
  | appending
  deriving DecidableEq

/-- A change of the open files. -/
inductive Redirection
  | file (number : Nat) (opening : Opening) (path : Phrase)
  /-- A file becomes the same as another one, or is closed. -/
  | duplicate (number : Nat) (other : Phrase)
  /-- A file holds a text. -/
  | text (number : Nat) (content : Phrase)

/-- A statement of a script. -/
inductive Statement
  | nothing
  | simple (assignments : List (List Char × Phrase)) (words : List Phrase)
      (redirections : List Redirection)
  | sequence (a b : Statement)
  | andThen (a b : Statement)
  | orElse (a b : Statement)
  | negation (a : Statement)
  | conditional (test yes no : Statement)
  /-- Runs the body as long as the test fails if `inverted`, else as long as it succeeds. -/
  | loop (inverted : Bool) (test body : Statement)
  /-- Without words, the positional parameters are meant. -/
  | forEach (name : List Char) (words : Option (List Phrase)) (body : Statement)
  | choice (subject : Phrase) (cases : List (List Phrase × Statement))
  | subshell (a : Statement)
  | redirected (a : Statement) (redirections : List Redirection)
  | pipeline (a b : Statement)
  /-- Is not waited for. -/
  | background (a : Statement)
  | definition (name : List Char) (body : Statement)

/-! ## Words -/

/-- A character that ends a word. -/
def endsWord (c : Char) : Bool := c.isWhitespace || ";&|<>()".toList.contains c

/-- A character with which a name may start. -/
def startsName (c : Char) : Bool := c.isAlpha || c = '_'

/-- A character of a name. -/
def inName (c : Char) : Bool := c.isAlphanum || c = '_'

/-- A character that is the name of a parameter by itself. -/
def isSpecial (c : Char) : Bool := "@*#?-$!0123456789".toList.contains c

/-- The script up to the parenthesis that closes it, at a depth of parentheses and in some quote.
What was read is held last first. -/
def balanced (read : List Char) : Nat → Option Char → List Char → Option (List Char × List Char)
  | _, _, [] => none
  | depth, some '\x22', '\\' :: c :: rest => balanced (c :: '\\' :: read) depth (some '\x22') rest
  | depth, some q, c :: rest => balanced (c :: read) depth (if c = q then none else some q) rest
  | depth, none, '\\' :: c :: rest => balanced (c :: '\\' :: read) depth none rest
  | depth, none, c :: rest =>
    if c = '\x22' ∨ c = '\x27' then balanced (c :: read) depth (some c) rest
    else if c = '(' then balanced (c :: read) (depth + 1) none rest
    else if c = ')' then
      match depth with
      | 0 => some (read.reverse, rest)
      | depth + 1 => balanced (c :: read) depth none rest
    else balanced (c :: read) depth none rest

/-- The script between backquotes, where a backslash escapes a backquote, itself and a dollar sign.
-/
def backquoted (read : List Char) : List Char → Option (List Char × List Char)
  | [] => none
  | '\\' :: c :: rest =>
    if c = '\x60' ∨ c = '\\' ∨ c = '$' then backquoted (c :: read) rest
    else backquoted (c :: '\\' :: read) rest
  | c :: rest => if c = '\x60' then some (read.reverse, rest) else backquoted (c :: read) rest

/-- Where a phrase is written, which decides where it ends. -/
inductive Place
  | word
  | quotes
  /-- As an argument in braces, perhaps within quotes. -/
  | braces (quoted : Bool)
  /-- In an arithmetic expression, at a depth of parentheses. -/
  | expression (depth : Nat)

/-- What stands here counts as quoted. -/
def Place.isQuoted : Place → Bool
  | word => false
  | quotes => true
  | braces quoted => quoted
  | expression _ => true

/-- A phrase is complete here; what follows it. -/
def Place.close? : Place → List Char → Option (List Char)
  | word, [] => some []
  | word, c :: rest => if endsWord c then some (c :: rest) else none
  | quotes, '\x22' :: rest => some rest
  | braces _, '\x7d' :: rest => some rest
  | expression 0, ')' :: ')' :: rest => some rest
  | _, _ => none

/-- What a letter in braces says about a parameter, and the rest. -/
def parameterUse (text : List Char) : Option (ParameterUse × List Char) :=
  match text with
  | '\x7d' :: _ => some (.value, text)
  | ':' :: '-' :: rest => some (.fallback true, rest)
  | ':' :: '=' :: rest => some (.assign true, rest)
  | ':' :: '?' :: rest => some (.demand true, rest)
  | ':' :: '+' :: rest => some (.instead true, rest)
  | '-' :: rest => some (.fallback false, rest)
  | '=' :: rest => some (.assign false, rest)
  | '?' :: rest => some (.demand false, rest)
  | '+' :: rest => some (.instead false, rest)
  | '#' :: '#' :: rest => some (.trimFront true, rest)
  | '#' :: rest => some (.trimFront false, rest)
  | '%' :: '%' :: rest => some (.trimBack true, rest)
  | '%' :: rest => some (.trimBack false, rest)
  | _ => none

/-- The name of a parameter in braces, and what follows it. -/
def parameterName (text : List Char) : Option (List Char × List Char) :=
  match text with
  | c :: rest =>
    if startsName c then some (text.takeWhile inName, text.dropWhile inName)
    else if c.isDigit then some (text.takeWhile Char.isDigit, text.dropWhile Char.isDigit)
    else if isSpecial c then some ([c], rest)
    else none
  | [] => none

/-- Marks every literal of a phrase as quoted or not. -/
def mark (quoted : Bool) (text : List Char) : Segment := .literal text quoted

/-- Reads the parts of a phrase up to its end. -/
def phrase : Nat → Place → List Char → Option (Phrase × List Char)
  | 0, _, _ => none
  | fuel + 1, place, text =>
    match place.close? text with
    | some rest => some ([], rest)
    | none =>
      let quoted := place.isQuoted
      let continueWith (s : Segment) (place : Place) (rest : List Char) := do
        let (more, rest) ← phrase fuel place rest
        return (s :: more, rest)
      match place, text with
      | _, [] => none
      | .word, '\x27' :: rest =>
        let body := rest.takeWhile (· ≠ '\x27')
        match rest.drop body.length with
        | _ :: rest => continueWith (.literal body true) place rest
        | [] => none
      | .braces false, '\x27' :: rest =>
        let body := rest.takeWhile (· ≠ '\x27')
        match rest.drop body.length with
        | _ :: rest => continueWith (.literal body true) place rest
        | [] => none
      | .expression depth, '(' :: rest =>
        continueWith (mark true ['(']) (.expression (depth + 1)) rest
      | .expression (depth + 1), ')' :: rest =>
        continueWith (mark true [')']) (.expression depth) rest
      | .quotes, '\\' :: c :: rest =>
        if c = '\n' then phrase fuel place rest
        else if c = '$' ∨ c = '\x60' ∨ c = '\x22' ∨ c = '\\' then
          continueWith (mark true [c]) place rest
        else continueWith (mark true ['\\', c]) place rest
      | _, '\\' :: c :: rest =>
        if c = '\n' then phrase fuel place rest else continueWith (mark true [c]) place rest
      | _, '\x22' :: rest => do
        let (inner, rest) ← phrase fuel .quotes rest
        let (more, rest) ← phrase fuel place rest
        return (mark true [] :: inner ++ more, rest)
      | _, '\x60' :: rest => do
        let (script, rest) ← backquoted [] rest
        continueWith (.substitution script quoted) place rest
      | _, '$' :: '(' :: '(' :: rest => do
        let (body, rest) ← phrase fuel (.expression 0) rest
        continueWith (.arithmetic body quoted) place rest
      | _, '$' :: '(' :: rest => do
        let (script, rest) ← balanced [] 0 none rest
        continueWith (.substitution script quoted) place rest
      | _, '$' :: '\x7b' :: '#' :: '\x7d' :: rest =>
        continueWith (.parameter ['#'] .value [] quoted) place rest
      | _, '$' :: '\x7b' :: '#' :: rest => do
        let (name, rest) ← parameterName rest
        match rest with
        | '\x7d' :: rest => continueWith (.parameter name .length [] quoted) place rest
        | _ => none
      | _, '$' :: '\x7b' :: rest => do
        let (name, rest) ← parameterName rest
        let (use, rest) ← parameterUse rest
        let (argument, rest) ← phrase fuel (.braces quoted) rest
        continueWith (.parameter name use argument quoted) place rest
      | _, '$' :: c :: rest =>
        if startsName c then
          let name := c :: rest.takeWhile inName
          continueWith (.parameter name .value [] quoted) place (rest.dropWhile inName)
        else if isSpecial c then continueWith (.parameter [c] .value [] quoted) place rest
        else continueWith (mark quoted ['$']) place (c :: rest)
      | _, c :: rest => continueWith (mark quoted [c]) place rest

/-- Reads a word. -/
def word (text : List Char) : Option (Phrase × List Char) :=
  phrase (2 * text.length + 2) .word text

/-! ## Statements -/

/-- Skips blanks, hidden line ends and comments. -/
def skipBlanks : List Char → List Char
  | '\\' :: '\n' :: rest => skipBlanks rest
  | c :: rest =>
    if isBlank c then skipBlanks rest
    else if c = '#' then rest.dropWhile (· ≠ '\n')
    else c :: rest
  | [] => []

/-- Skips blanks, comments and line ends. -/
def skipBreaks : Nat → List Char → List Char
  | 0, text => text
  | fuel + 1, text =>
    match skipBlanks text with
    | '\n' :: rest => skipBreaks fuel rest
    | text => text

/-- The text starts with a keyword; what follows it. -/
def keyword? (key : String) (text : List Char) : Option (List Char) :=
  let k := key.toList
  let rest := text.drop k.length
  if text.take k.length = k ∧ rest.head?.all endsWord then some rest else none

/-- The words that end a list of statements. -/
def terminators : List String := ["then", "else", "elif", "fi", "do", "done", "esac", "\x7d"]

/-- A list of statements is complete here. -/
def endsList (text : List Char) : Bool :=
  match text with
  | [] => true
  | ')' :: _ => true
  | ';' :: ';' :: _ => true
  | _ => terminators.any fun key => (keyword? key text).isSome

/-- Reads a redirection, if there is one here. -/
def redirection (text : List Char) : Option (Option Redirection × List Char) :=
  let digits := text.takeWhile Char.isDigit
  let number (default : Nat) : Nat := ((readDecimal digits).map (·.1)).getD default
  let operand (make : Phrase → Redirection) (rest : List Char) := do
    let (w, rest) ← word (skipBlanks rest)
    if w.isEmpty then none else return (some (make w), rest)
  match text.drop digits.length with
  | '>' :: '&' :: rest => operand (.duplicate (number 1)) rest
  | '<' :: '&' :: rest => operand (.duplicate (number 0)) rest
  | '>' :: '>' :: rest => operand (.file (number 1) .appending) rest
  | '>' :: '|' :: rest => operand (.file (number 1) .writing) rest
  | '<' :: '<' :: rest => operand (.text (number 0)) rest
  | '<' :: '>' :: rest => operand (.file (number 0) .reading) rest
  | '>' :: rest => operand (.file (number 1) .writing) rest
  | '<' :: rest => operand (.file (number 0) .reading) rest
  | _ => some (none, text)

/-- Reads redirections. -/
def redirections : Nat → List Char → Option (List Redirection × List Char)
  | 0, text => some ([], text)
  | fuel + 1, text => do
    match ← redirection (skipBlanks text) with
    | (none, _) => return ([], text)
    | (some r, rest) =>
      let (more, rest) ← redirections fuel rest
      return (r :: more, rest)

/-- The name that is assigned here, and the text of its value. -/
def assignment? (text : List Char) : Option (List Char × List Char) :=
  let name := text.takeWhile inName
  match text.drop name.length with
  | '=' :: rest => if name.head?.any startsName then some (name, rest) else none
  | _ => none

/-- Reads the rest of a simple statement. -/
def elements : Nat → List (List Char × Phrase) → List Phrase → List Redirection → List Char →
    Option (Statement × List Char)
  | 0, _, _, _, _ => none
  | fuel + 1, assignments, words, changes, text => do
    let text := skipBlanks text
    match ← redirection text with
    | (some r, rest) => elements fuel assignments words (changes ++ [r]) rest
    | (none, _) =>
      if text.head?.all endsWord then
        if assignments.isEmpty && words.isEmpty && changes.isEmpty then none
        else return (.simple assignments words changes, text)
      else
        match if words.isEmpty then assignment? text else none with
        | some (name, rest) =>
          let (value, rest) ← word rest
          elements fuel (assignments ++ [(name, value)]) words changes rest
        | none =>
          let (w, rest) ← word text
          elements fuel assignments (words ++ [w]) changes rest

/-- The name that is defined here, and the text of what it stands for. -/
def definition? (text : List Char) : Option (List Char × List Char) :=
  let name := text.takeWhile inName
  match skipBlanks (text.drop name.length) with
  | '(' :: rest =>
    match name.head?.any startsName, skipBlanks rest with
    | true, ')' :: rest => some (name, rest)
    | _, _ => none
  | _ => none

/-- Reads words up to the end of a statement. -/
def wordsHere : Nat → List Char → Option (List Phrase × List Char)
  | 0, _ => none
  | fuel + 1, text => do
    let text := skipBlanks text
    if text.head?.all endsWord then return ([], text)
    let (w, rest) ← word text
    let (more, rest) ← wordsHere fuel rest
    return (w :: more, rest)

/-- Reads the patterns of a case up to the closing parenthesis. -/
def patterns : Nat → List Char → Option (List Phrase × List Char)
  | 0, _ => none
  | fuel + 1, text => do
    let (w, rest) ← word (skipBlanks text)
    match skipBlanks rest with
    | '|' :: rest =>
      let (more, rest) ← patterns fuel rest
      return (w :: more, rest)
    | ')' :: rest => return ([w], rest)
    | _ => none

/-- What is to be read next. -/
inductive Goal
  /-- Statements up to one that ends a list. -/
  | statements
  /-- Pipelines joined by conditions. -/
  | joined
  | pipeline
  | command
  /-- What follows the test of a conditional. -/
  | branches
  /-- The cases of a choice. -/
  | cases

/-- What was read. -/
inductive Parsed
  | statement (s : Statement)
  | cases (c : List (List Phrase × Statement))

/-- A statement that was read. -/
def Parsed.statement? : Parsed → Option Statement
  | statement s => some s
  | cases _ => none

/-- Expects a keyword. -/
def expect (key : String) (text : List Char) : Option (List Char) :=
  keyword? key (skipBreaks text.length text)

/-- Reads what a goal asks for. `left` is the statement in front of what joins it to the next. -/
def read : Nat → Goal → List Char → Option (Parsed × List Char)
  | 0, _, _ => none
  | fuel + 1, goal, text =>
    let part (goal : Goal) (text : List Char) : Option (Statement × List Char) := do
      let (p, rest) ← read fuel goal text
      return (← p.statement?, rest)
    let done (s : Statement) (rest : List Char) : Option (Parsed × List Char) :=
      some (.statement s, rest)
    let breaks (text : List Char) := skipBreaks text.length text
    match goal with
    | .statements => do
      let text := breaks text
      if endsList text then done .nothing text
      else
        let (a, rest) ← part .joined text
        match skipBlanks rest with
        | ';' :: ';' :: rest => done a (';' :: ';' :: rest)
        | ';' :: rest =>
          let (b, rest) ← part .statements rest
          done (match b with | .nothing => a | _ => .sequence a b) rest
        | '&' :: rest =>
          let (b, rest) ← part .statements rest
          done (match b with | .nothing => .background a | _ => .sequence (.background a) b) rest
        | '\n' :: rest =>
          let (b, rest) ← part .statements rest
          done (match b with | .nothing => a | _ => .sequence a b) rest
        | rest => if endsList rest then done a rest else none
    | .joined => do
      -- Conditions join from the left, so the rest is read as a list of links.
      let (a, rest) ← part .pipeline text
      links fuel (fun text => part .pipeline (breaks text)) a rest
    | .pipeline => do
      let text := skipBlanks text
      match keyword? "!" text with
      | some rest =>
        let (a, rest) ← part .pipeline rest
        done (.negation a) rest
      | none =>
        let (a, rest) ← part .command text
        match skipBlanks rest with
        | '|' :: '|' :: rest => done a ('|' :: '|' :: rest)
        | '|' :: rest =>
          let (b, rest) ← part .pipeline (breaks rest)
          done (.pipeline a b) rest
        | rest => done a rest
    | .command => do
      let text := skipBlanks text
      let compound (s : Statement) (rest : List Char) : Option (Parsed × List Char) := do
        let (changes, rest) ← redirections rest.length rest
        done (if changes.isEmpty then s else .redirected s changes) rest
      if let '(' :: rest := text then
        let (a, rest) ← part .statements rest
        match skipBlanks rest with
        | ')' :: rest => return ← compound (.subshell a) rest
        | _ => none
      if let some rest := keyword? "\x7b" text then
        let (a, rest) ← part .statements rest
        return ← compound a (← expect "\x7d" rest)
      if let some rest := keyword? "if" text then
        let (test, rest) ← part .statements rest
        let (yes, rest) ← part .statements (← expect "then" rest)
        let (no, rest) ← part .branches rest
        return ← compound (.conditional test yes no) rest
      if let some (inverted, rest) :=
          ((keyword? "while" text).map (false, ·)).or ((keyword? "until" text).map (true, ·)) then
        let (test, rest) ← part .statements rest
        let (body, rest) ← part .statements (← expect "do" rest)
        return ← compound (.loop inverted test body) (← expect "done" rest)
      if let some rest := keyword? "for" text then
        let rest := skipBlanks rest
        let name := rest.takeWhile inName
        let rest := breaks (rest.drop name.length)
        let (words, rest) : Option (List Phrase) × List Char ← match keyword? "in" rest with
          | some rest => do
            let (ws, rest) ← wordsHere rest.length.succ rest
            pure (some ws, rest)
          | none => pure (none, rest)
        let rest := skipBlanks rest
        let rest := if rest.head? = some ';' then rest.tail else rest
        let (body, rest) ← part .statements (← expect "do" rest)
        return ← compound (.forEach name words body) (← expect "done" rest)
      if let some rest := keyword? "case" text then
        let (subject, rest) ← word (skipBlanks rest)
        let (p, rest) ← read fuel .cases (← expect "in" rest)
        match p with
        | .cases cs => return ← compound (.choice subject cs) rest
        | _ => none
      if endsList text then none
      if let some (name, rest) := definition? text then
        let (body, rest) ← part .command (breaks rest)
        return ← done (.definition name body) rest
      let (s, rest) ← elements text.length.succ [] [] [] text
      done s rest
    | .branches => do
      let text := breaks text
      if let some rest := keyword? "fi" text then done .nothing rest
      else if let some rest := keyword? "else" text then
        let (no, rest) ← part .statements rest
        done no (← expect "fi" rest)
      else
        let rest ← keyword? "elif" text
        let (test, rest) ← part .statements rest
        let (yes, rest) ← part .statements (← expect "then" rest)
        let (no, rest) ← part .branches rest
        done (.conditional test yes no) rest
    | .cases => do
      let text := breaks text
      if let some rest := keyword? "esac" text then return (.cases [], rest)
      let text := if text.head? = some '(' then text.tail else text
      let (ps, rest) ← patterns text.length.succ text
      let (body, rest) ← part .statements rest
      match breaks rest with
      | ';' :: ';' :: rest =>
        let (p, rest) ← read fuel .cases rest
        match p with
        | .cases more => return (.cases ((ps, body) :: more), rest)
        | _ => none
      | rest => return (.cases [(ps, body)], ← expect "esac" rest)
where
  /-- Reads pipelines that are joined to `a` by conditions. -/
  links : Nat → (List Char → Option (Statement × List Char)) → Statement → List Char →
      Option (Parsed × List Char)
    | 0, _, _, _ => none
    | fuel + 1, next, a, text =>
      match skipBlanks text with
      | '&' :: '&' :: rest => do
        let (b, rest) ← next rest
        links fuel next (.andThen a b) rest
      | '|' :: '|' :: rest => do
        let (b, rest) ← next rest
        links fuel next (.orElse a b) rest
      | rest => some (.statement a, rest)

/-- The statement that a script is. -/
def Statement.parse? (script : List Char) : Option Statement := do
  let script := Inline.resolve script
  let (p, rest) ← read (4 * script.length + 16) .statements script
  if rest.isEmpty then p.statement? else none

end Coprocess.Program.Shell
