import Coprocess.Program.ByteClass

/-!
# Regular expressions

Basic and extended regular expressions over bytes.

* `Regex`: the expressions; `Regex.parse`: from their two written forms;
* `Regex.search`: the leftmost match and its groups; of the matches that start there, that of the
  alternative which ends last.
-/

namespace Coprocess.Program

/-- A regular expression. -/
inductive Regex
  | empty
  | byte (test : UInt8 → Bool)
  | seq (a b : Regex)
  | alt (a b : Regex)
  /-- At least `least` and at most `most` times. -/
  | many (r : Regex) (least : Nat) (most : Option Nat)
  | group (number : Nat) (r : Regex)
  /-- What a group matched. -/
  | back (number : Nat)
  /-- A place, by the bytes before and behind it. -/
  | edge (test : Option UInt8 → Option UInt8 → Bool)

namespace Regex

/-- The start of the text, or of any line in it. -/
def lineStart (everyLine : Bool) : Regex :=
  edge fun before _ => before.isNone || (everyLine && before = some lf)

/-- The end of the text, or of any line in it. -/
def lineEnd (everyLine : Bool) : Regex :=
  edge fun _ behind => behind.isNone || (everyLine && behind = some lf)

/-- A byte of a word stands there. -/
def inWord (b : Option UInt8) : Bool := b.any isWordByte

/-- The place that a letter after a backslash stands for. -/
def place? : Char → Option Regex
  | 'b' => some (edge fun before behind => inWord before != inWord behind)
  | 'B' => some (edge fun before behind => inWord before = inWord behind)
  | '<' => some (edge fun before behind => !inWord before && inWord behind)
  | '>' => some (edge fun before behind => inWord before && !inWord behind)
  | '\x60' => some (lineStart false)
  | '\x27' => some (lineEnd false)
  | _ => none

/-! ## Matching -/

/-- Where groups start and end, the latest first. -/
abbrev Groups := List (Nat × Nat × Nat)

/-- A match: where it ends, and its groups. -/
abbrev Found := Nat × Groups

/-- The match that ends later; the first of two that end together. -/
def later : Option Found → Option Found → Option Found
  | none, b => b
  | some a, none => some a
  | some a, some b => if a.1 < b.1 then some b else some a

/-- How many bytes from `pos` on pass a test, at most `fuel`. -/
def runLength (test : UInt8 → Bool) (s : Array UInt8) (pos : Nat) : Nat → Nat → Nat
  | n, 0 => n
  | n, fuel + 1 =>
    match s[pos + n]? with
    | some b => if test b then runLength test s pos (n + 1) fuel else n
    | none => n

/-- The later of two matches, of which the second is not looked for if the first ends the text. -/
def laterOf (size : Nat) (a : Option Found) (b : Unit → Option Found) : Option Found :=
  match a with
  | some (stop, _) => if stop = size then a else later a (b ())
  | none => b ()

/-- Tries `k` after `n`, `n - 1`, … down to `least` bytes. -/
def shrink (size : Nat) (k : Nat → Option Found) (pos least : Nat) : Nat → Option Found
  | 0 => if least = 0 then k pos else none
  | n + 1 =>
    if n + 1 < least then none
    else laterOf size (k (pos + n + 1)) fun _ => shrink size k pos least n

/-- Matches an expression at `pos` and goes on with `k`. The fuel bounds the depth. -/
def run (s : Array UInt8) :
    Nat → Regex → Nat → Groups → (Nat → Groups → Option Found) → Option Found
  | 0, _, _, _, _ => none
  | fuel + 1, r, pos, groups, k =>
    match r with
    | empty => k pos groups
    | byte test =>
      match s[pos]? with
      | some b => if test b then k (pos + 1) groups else none
      | none => none
    | seq a b => run s fuel a pos groups fun pos groups => run s fuel b pos groups k
    | alt a b => laterOf s.size (run s fuel a pos groups k) fun _ => run s fuel b pos groups k
    | group number r =>
      run s fuel r pos groups fun stop groups => k stop ((number, pos, stop) :: groups)
    | back number =>
      match groups.lookup number with
      | none => none
      | some (start, stop) =>
        let part := s.extract start stop
        if s.extract pos (pos + part.size) = part then k (pos + part.size) groups else none
    | edge test =>
      if test (if pos = 0 then none else s[pos - 1]?) s[pos]? then k pos groups else none
    | many (byte test) least most =>
      let n := runLength test s pos 0 (s.size - pos)
      shrink s.size (k · groups) pos least (most.elim n (min n))
    | many r least most =>
      let more : Option Found :=
        if most = some 0 then none
        else run s fuel r pos groups fun next groups =>
          if next = pos ∧ least = 0 then none
          else run s fuel (many r (least - 1) (most.map (· - 1))) next groups k
      laterOf s.size more fun _ => if least = 0 then k pos groups else none

/-- The number of nodes. -/
def size : Regex → Nat
  | seq a b => a.size + b.size + 1
  | alt a b => a.size + b.size + 1
  | many r least _ => (r.size + 1) * (least + 1)
  | group _ r => r.size + 1
  | _ => 1

/-- The match at a position. -/
def matchAt (r : Regex) (s : Array UInt8) (pos : Nat) : Option Found :=
  run s ((s.size + 2) * (r.size + 2) * 2) r pos [] fun stop groups => some (stop, groups)

/-- The leftmost match from `pos` on, of which `fuel` positions are tried: where it starts, where it
ends, and its groups. -/
def searchFrom (r : Regex) (s : Array UInt8) : Nat → Nat → Option (Nat × Nat × Groups)
  | 0, _ => none
  | fuel + 1, pos =>
    match r.matchAt s pos with
    | some (stop, groups) => some (pos, stop, groups)
    | none => searchFrom r s fuel (pos + 1)

/-- The leftmost match from `pos` on. -/
def search (r : Regex) (s : Array UInt8) (pos : Nat) : Option (Nat × Nat × Groups) :=
  r.searchFrom s (s.size + 1 - pos) pos

/-! ## Classes of bytes -/

/-- The tests inside brackets up to the closing one, and what follows it. -/
def bracketItems (read : List (UInt8 → Bool)) :
    Nat → Bool → List Char → Option (List (UInt8 → Bool) × List Char)
  | 0, _, _ => none
  | fuel + 1, first, text =>
    match text with
    | [] => none
    | ']' :: rest =>
      if first then bracketItem read fuel ']' rest else some (read, rest)
    | '[' :: ':' :: rest =>
      let name := rest.takeWhile (· ≠ ':')
      match classTest (String.ofList name), rest.drop name.length with
      | some test, ':' :: ']' :: rest => bracketItems (test :: read) fuel false rest
      | _, _ => none
    | '[' :: '.' :: c :: '.' :: ']' :: rest => bracketItem read fuel c rest
    | '[' :: '=' :: c :: '=' :: ']' :: rest => bracketItem read fuel c rest
    | c :: rest => bracketItem read fuel c rest
where
  /-- A single byte, or a range from it on. -/
  bracketItem (read : List (UInt8 → Bool)) (fuel : Nat) (c : Char) (rest : List Char) :
      Option (List (UInt8 → Bool) × List Char) :=
    match fuel, rest with
    | 0, _ => none
    | fuel + 1, '-' :: d :: rest' =>
      if d = ']' then bracketItems ((fun b => b = byteOf c) :: read) fuel false rest
      else if d < c then none
      else bracketItems ((fun b => byteOf c ≤ b && b ≤ byteOf d) :: read) fuel false rest'
    | fuel + 1, rest => bracketItems ((fun b => b = byteOf c) :: read) fuel false rest

/-- The test for what stands in brackets, after the opening one. -/
def bracket (text : List Char) : Option ((UInt8 → Bool) × List Char) :=
  let (negated, text) := match text with
    | '^' :: rest => (true, rest)
    | _ => (false, text)
  match bracketItems [] (2 * text.length + 2) true text with
  | some (tests, rest) => some (fun b => negated != tests.any (· b), rest)
  | none => none

/-! ## Written forms -/

/-- How expressions are written. -/
structure Style where
  extended : Bool
  /-- Letters match in both cases. -/
  foldCase : Bool := false
  /-- The marks for the ends of a line fit those of every line in a text. -/
  everyLine : Bool := false
  /-- A count of repetitions in a place where it makes no sense is refused. -/
  strict : Bool := true

/-- The expression for one byte. -/
def literal (style : Style) (c : Char) : Regex :=
  if style.foldCase then byte fun b => lower b = lower (byteOf c) else byte (· = byteOf c)

/-- The most repetitions that can be asked for. -/
def countLimit : Nat := 32767

/-- A count of repetitions in braces, after the opening one. -/
def interval (style : Style) (text : List Char) : Option (Nat × Option Nat × List Char) :=
  let close (least : Nat) (most : Option Nat) (text : List Char) :
      Option (Nat × Option Nat × List Char) :=
    let fits : Bool := least ≤ most.getD countLimit && max least (most.getD 0) ≤ countLimit
    match style.extended, text with
    | false, '\\' :: '\x7d' :: rest => if fits then some (least, most, rest) else none
    | true, '\x7d' :: rest => if fits then some (least, most, rest) else none
    | _, _ => none
  let (least, rest) := (readDecimal text).getD (0, text)
  match rest with
  | ',' :: rest =>
    match readDecimal rest with
    | some (most, rest) => close least (some most) rest
    | none => close least none rest
  | _ => if text.head?.any Char.isDigit then close least (some least) rest else none

/-- A mark of repetition. -/
inductive Repetition
  | missing
  | wrong
  | found (least : Nat) (most : Option Nat) (rest : List Char)

/-- The mark of repetition with which a text starts. -/
def repetition (style : Style) (text : List Char) : Repetition :=
  let counted (rest : List Char) : Repetition :=
    match interval style rest with
    | some (least, most, rest) => .found least most rest
    | none => if style.strict || !style.extended then .wrong else .missing
  match style.extended, text with
  | _, '*' :: rest => .found 0 none rest
  | true, '+' :: rest => .found 1 none rest
  | true, '?' :: rest => .found 0 (some 1) rest
  | true, '\x7b' :: rest => counted rest
  | false, '\\' :: '+' :: rest => .found 1 none rest
  | false, '\\' :: '?' :: rest => .found 0 (some 1) rest
  | false, '\\' :: '\x7b' :: rest => counted rest
  | _, _ => .missing

/-- A repetition is repeated by a star or by a count here. -/
def doubles (style : Style) (text : List Char) : Bool :=
  !style.extended && style.strict && match text with
    | '*' :: _ => true
    | '\\' :: '\x7b' :: _ => true
    | _ => false

/-- The repetitions that follow an expression, applied to it. -/
def repeated (style : Style) : Nat → Regex → List Char → Option (Regex × List Char)
  | 0, r, text => some (r, text)
  | fuel + 1, r, text =>
    match repetition style text with
    | .missing => some (r, text)
    | .wrong => none
    | .found least most rest =>
      if doubles style rest then none else repeated style fuel (many r least most) rest

/-- The text closes a group here. -/
def closesGroup (style : Style) : List Char → Bool
  | '\\' :: ')' :: _ => !style.extended
  | ')' :: _ => style.extended
  | _ => false

/-- The text separates alternatives here. -/
def separates (style : Style) : List Char → Bool
  | '\\' :: '|' :: _ => !style.extended
  | '|' :: _ => style.extended
  | _ => false

/-- What follows a separator or the end of a group. -/
def afterMark (style : Style) (text : List Char) : List Char :=
  text.drop (if style.extended then 1 else 2)

/-- A dollar sign stands for the end of the line here. -/
def endsLine (style : Style) (rest : List Char) : Bool :=
  style.extended || rest.isEmpty || closesGroup style rest || separates style rest

/-- Reads a mark of repetition in a place where there is nothing to repeat. What it stands for, and
what follows it; the outer `none` refuses it, the inner one says that there is none. -/
def idleRepetition (style : Style) (text : List Char) : Option (Option (Regex × List Char)) :=
  match style.extended, text with
  | false, '*' :: rest => some (some (literal style '*', rest))
  | false, '\\' :: '+' :: rest => some (some (literal style '+', rest))
  | false, '\\' :: '?' :: rest => some (some (literal style '?', rest))
  | false, '\\' :: '\x7b' :: _ => none
  | _, _ =>
    match repetition style text with
    | .missing => some none
    | .wrong => none
    | .found _ _ rest => if style.strict then none else some (some (empty, rest))

/-- Reads an expression: alternatives if `wide`, else a sequence of repeated atoms. `groups` counts
the groups so far, and `first` tells that the sequence starts here. -/
def parseFrom (style : Style) :
    Nat → Bool → Bool → Nat → List Char → Option (Regex × Nat × List Char)
  | 0, _, _, _, _ => none
  | fuel + 1, true, _, groups, text => do
    let (a, groups, rest) ← parseFrom style fuel false true groups text
    if separates style rest then
      let (b, groups, rest) ← parseFrom style fuel true true groups (afterMark style rest)
      return (alt a b, groups, rest)
    return (a, groups, rest)
  | fuel + 1, false, first, groups, text => do
    if text.isEmpty || closesGroup style text || separates style text then
      return (empty, groups, text)
    let idle ← if first then idleRepetition style text else pure none
    let anchored : Bool := text.head? = some '^' && (style.extended || first)
    let (atom, groups, rest) ← match idle, style.extended, text with
      | some (r, rest), _, _ => pure (r, groups, rest)
      | none, false, '\\' :: '(' :: rest => do
        let number := groups + 1
        let (r, groups, rest) ← parseFrom style fuel true true number rest
        if closesGroup style rest then pure (group number r, groups, afterMark style rest)
        else none
      | none, true, '(' :: rest => do
        let number := groups + 1
        let (r, groups, rest) ← parseFrom style fuel true true number rest
        if closesGroup style rest then pure (group number r, groups, afterMark style rest)
        else none
      | none, _, '[' :: rest => do
        let (test, rest) ← bracket rest
        let test := if style.foldCase then
            fun b => test b || test (lower b) || (97 ≤ b && b ≤ 122 && test (b - 32))
          else test
        pure (byte test, groups, rest)
      | none, _, '.' :: rest => pure (byte fun _ => true, groups, rest)
      | none, _, '\\' :: c :: rest =>
        if c.isDigit ∧ c ≠ '0' then
          let number := c.toNat - '0'.toNat
          if number ≤ groups then pure (back number, groups, rest) else none
        else match c, place? c with
          | 'w', _ => pure (byte isWordByte, groups, rest)
          | 'W', _ => pure (byte fun b => !isWordByte b, groups, rest)
          | 's', _ => pure (byte fun b => b = 32 || (9 ≤ b && b ≤ 13), groups, rest)
          | 'S', _ => pure (byte fun b => !(b = 32 || (9 ≤ b && b ≤ 13)), groups, rest)
          | _, some r => pure (r, groups, rest)
          | _, none => pure (literal style c, groups, rest)
      | none, _, ['\\'] => none
      | none, _, '^' :: rest =>
        if anchored then pure (lineStart style.everyLine, groups, rest)
        else pure (literal style '^', groups, rest)
      | none, _, '$' :: rest =>
        if endsLine style rest then pure (lineEnd style.everyLine, groups, rest)
        else pure (literal style '$', groups, rest)
      | none, _, c :: rest => pure (literal style c, groups, rest)
      | none, _, [] => none
    let (atom, rest) ←
      if anchored then
        match ← idleRepetition style rest with
        | some (r, rest) => pure (seq atom r, rest)
        | none => pure (atom, rest)
      else repeated style fuel atom rest
    let (more, groups, rest) ← parseFrom style fuel false false groups rest
    return (seq atom more, groups, rest)

/-- The expression that a text stands for, and the number of its groups. -/
def parse (style : Style) (text : List Char) : Option (Regex × Nat) := do
  let (r, groups, rest) ← parseFrom style (4 * text.length + 4) true true 0 text
  if rest.isEmpty then return (r, groups) else none

end Regex

end Coprocess.Program
