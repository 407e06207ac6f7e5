import Coprocess.Program.Arguments
import Coprocess.Program.Filter
import Coprocess.Program.Regex

/-!
# Arranging and counting lines

* `Sorting`: the lines in order; `Reversal`: the lines from the last to the first;
* `Numbering`: the lines with their numbers;
* `Counting`: the number of lines, words and bytes.
-/

namespace Coprocess.Program

/-- A number right-aligned in a field. -/
def aligned (width n : Nat) : Bytes :=
  let digits := (toString n).toList
  bytesOf (List.replicate (width - digits.length) ' ' ++ digits)

/-! ## Sorting -/

/-- How two texts are compared. -/
structure Comparison where
  descending : Bool := false
  numeric : Bool := false
  foldCase : Bool := false
  /-- Only blanks, letters and digits count. -/
  dictionary : Bool := false
  /-- Only printable characters count. -/
  printable : Bool := false
  /-- Blanks in front do not count. -/
  skipBlanks : Bool := false
  deriving DecidableEq

/-- A part of a line by which lines are sorted. -/
structure SortKey where
  /-- How many fields are in front of it, and how many bytes in its first field. -/
  fields : Nat
  bytes : Nat := 0
  /-- The same for its end, which is that of a field if no bytes are counted. -/
  stop : Option (Nat × Nat) := none
  /-- Blanks at the front of its last field do not count. -/
  skipStopBlanks : Bool := false
  comparison : Comparison := {}

/-- How lines are sorted. -/
structure Sorting where
  comparison : Comparison := {}
  keys : List SortKey := []
  separator : Option UInt8 := none
  unique : Bool := false
  /-- Lines that compare equal keep their order. -/
  stable : Bool := false
  /-- The order of the input is only checked. -/
  checks : Bool := false

namespace Sorting

/-- Compares byte by byte. -/
def compareBytes : Bytes → Bytes → Ordering
  | [], [] => .eq
  | [], _ :: _ => .lt
  | _ :: _, [] => .gt
  | a :: s, b :: t => if a < b then .lt else if b < a then .gt else compareBytes s t

/-- The number with which a line starts: its sign, its whole digits without zeros in front, and the
digits of its fraction without zeros behind. -/
def number (s : Bytes) : Bool × Bytes × Bytes :=
  let isDigit (b : UInt8) : Bool := 48 ≤ b && b ≤ 57
  let s := s.dropWhile fun b => b = 32 || b = 9
  let (negative, s) := match s with
    | 45 :: rest => (true, rest)
    | _ => (false, s)
  let whole := (s.takeWhile isDigit).dropWhile (· = 48)
  let fraction := match s.dropWhile isDigit with
    | 46 :: rest => ((rest.takeWhile isDigit).reverse.dropWhile (· = 48)).reverse
    | _ => []
  (negative && !(whole.isEmpty && fraction.isEmpty), whole, fraction)

/-- Compares two numbers without their signs. -/
def compareSizes (a b : Bytes × Bytes) : Ordering :=
  (compare a.1.length b.1.length).then ((compareBytes a.1 b.1).then (compareBytes a.2 b.2))

/-- Compares the numbers with which lines start. -/
def compareNumbers (s t : Bytes) : Ordering :=
  let (negative, a) := number s
  let (negative', b) := number t
  match negative, negative' with
  | false, false => compareSizes a b
  | true, true => compareSizes b a
  | true, false => .lt
  | false, true => .gt

/-- Capital letters for all letters. -/
def fold (s : Bytes) : Bytes := s.map fun b => if 97 ≤ b ∧ b ≤ 122 then b - 32 else b

/-- A byte between fields. -/
def isGap (b : UInt8) : Bool := b = 32 || b = 9 || b = lf

/-- A byte that counts in a comparison. -/
def counts (c : Comparison) (b : UInt8) : Bool :=
  (!c.dictionary || b = 32 || b = 9 || (b < 128 && (Char.ofNat b.toNat).isAlphanum)) &&
    (!c.printable || (32 ≤ b && b < 127))

/-- Compares two texts. -/
def compareTexts (c : Comparison) (s t : Bytes) : Ordering :=
  let seen (s : Bytes) : Bytes :=
    let s := s.filter (counts c)
    if c.foldCase then fold s else s
  let order := if c.numeric then compareNumbers s t else compareBytes (seen s) (seen t)
  if c.descending then order.swap else order

/-- A line without its first `count` fields. A separator behind a field belongs to it if `through`,
or if more fields follow. -/
def dropFields (separator : Option UInt8) (through : Bool) : Nat → Bytes → Bytes
  | 0, s => s
  | count + 1, s =>
    match separator with
    | none => dropFields separator through count ((s.dropWhile isGap).dropWhile fun b => !isGap b)
    | some mark =>
      let rest := s.dropWhile (· ≠ mark)
      dropFields separator through count (if through || 0 < count then rest.drop 1 else rest)

/-- The part of a line that a key means. -/
def select (separator : Option UInt8) (k : SortKey) (s : Bytes) : Bytes :=
  let start := dropFields separator true k.fields s
  let start := (if k.comparison.skipBlanks then start.dropWhile isGap else start).drop k.bytes
  let behind : Bytes := match k.stop with
    | none => []
    | some (fields, 0) => dropFields separator false (fields + 1) s
    | some (fields, bytes) =>
      let rest := dropFields separator true fields s
      (if k.skipStopBlanks then rest.dropWhile isGap else rest).drop bytes
  start.take (start.length - behind.length)

/-- Compares two lines by the keys. -/
def compareKeys (o : Sorting) (s t : Bytes) : Ordering :=
  o.keys.foldl (fun order k =>
    order.then (compareTexts k.comparison (select o.separator k s) (select o.separator k t))) .eq

/-- The first line may stand before the second. -/
def before (o : Sorting) (s t : Bytes) : Bool :=
  match o.compareKeys s t with
  | .lt => true
  | .gt => false
  | .eq =>
    if o.stable || o.unique then true
    else
      let order := compareBytes s t
      (if o.comparison.descending then order.swap else order) != .gt

/-- Keeps the first of neighbours that compare equal. -/
def distinct (o : Sorting) (kept : List Bytes) : List Bytes → List Bytes
  | [] => kept.reverse
  | s :: rest =>
    match kept with
    | t :: _ =>
      if o.compareKeys t s = .eq then distinct o kept rest else distinct o (s :: kept) rest
    | [] => distinct o [s] rest

/-- Two lines are in order, and differ if they have to. -/
def ordered (o : Sorting) (s t : Bytes) : Bool :=
  if o.unique then o.compareKeys s t = .lt else o.before s t

/-- All lines are in order. -/
def isSorted (o : Sorting) : List Bytes → Bool
  | s :: t :: rest => o.ordered s t && isSorted o (t :: rest)
  | _ => true

/-- What is written for some bytes, and the exit code. -/
def apply (o : Sorting) (s : Bytes) : Bytes × Nat :=
  if o.checks then ([], if o.isSorted (lines s) then 0 else 1)
  else
    let sorted := (lines s).mergeSort o.before
    let sorted := if o.unique then o.distinct [] sorted else sorted
    ((sorted.map (· ++ [lf])).flatten, 0)

/-- The comparison that a letter adds to. -/
def letter? (c : Comparison) : Char → Option Comparison
  | 'r' => some { c with descending := true }
  | 'n' => some { c with numeric := true }
  | 'f' => some { c with foldCase := true }
  | 'd' => some { c with dictionary := true }
  | 'i' => some { c with printable := true }
  | 'b' => some { c with skipBlanks := true }
  | _ => none

/-- A position in a line: a number of fields, perhaps a number of bytes, and letters. -/
def position? (text : List Char) : Option (Nat × Option Nat × List Char) := do
  let (field, rest) ← readDecimal text
  if field = 0 then none
  match rest with
  | '.' :: rest =>
    let (byte, rest) ← readDecimal rest
    return (field - 1, some byte, rest)
  | rest => return (field - 1, none, rest)

/-- The key that a text describes. -/
def key? (text : List Char) : Option SortKey := do
  let (fields, byte, letters) ← position? (text.takeWhile (· ≠ ','))
  let comparison ← letters.foldlM letter? {}
  if byte = some 0 then none
  let k : SortKey := { fields, bytes := byte.getD 1 - 1, comparison }
  match text.dropWhile (· ≠ ',') with
  | [] => return k
  | _ :: rest =>
    let (fields, byte, letters) ← position? rest
    let comparison ← (letters.filter (· ≠ 'b')).foldlM letter? k.comparison
    return { k with
      stop := some (fields, byte.getD 0)
      skipStopBlanks := letters.contains 'b'
      comparison }

/-- The options of this program. -/
def choices : List Choice :=
  [⟨'r', "reverse", false⟩, ⟨'n', "numeric-sort", false⟩, ⟨'f', "ignore-case", false⟩,
    ⟨'d', "dictionary-order", false⟩, ⟨'i', "ignore-nonprinting", false⟩,
    ⟨'b', "ignore-leading-blanks", false⟩, ⟨'u', "unique", false⟩, ⟨'s', "stable", false⟩,
    ⟨'c', "check", false⟩, ⟨'C', "", false⟩, ⟨'k', "key", true⟩, ⟨'t', "field-separator", true⟩,
    ⟨'S', "buffer-size", true⟩, ⟨'T', "temporary-directory", true⟩]

/-- The order that an option adds to. -/
def add (o : Sorting) : Char × Bytes → Option Sorting
  | ('u', _) => some { o with unique := true }
  | ('s', _) => some { o with stable := true }
  | ('c', _) => some { o with checks := true }
  | ('C', _) => some { o with checks := true }
  | ('S', _) => some o
  | ('T', _) => some o
  | ('k', value) => (key? (charsOf value)).map fun k => { o with keys := o.keys ++ [k] }
  | ('t', [b]) => some { o with separator := some b }
  | ('t', value) =>
    if charsOf value = ['\\', '0'] then some { o with separator := some 0 } else none
  | (letter, _) => (letter? o.comparison letter).map fun comparison => { o with comparison }

/-- A key without letters is compared as whole lines are; without keys, whole lines are compared. -/
def complete (o : Sorting) : Sorting :=
  let plain (k : SortKey) : Bool := k.comparison = {} && !k.skipStopBlanks
  { o with keys := match o.keys with
    | [] => [{ fields := 0, comparison := o.comparison }]
    | keys => keys.map fun k => if plain k then
        { k with comparison := o.comparison, skipStopBlanks := o.comparison.skipBlanks }
      else k }

/-- The order that some arguments ask for. -/
def ofArguments? (args : List Bytes) : Option Sorting := do
  let given ← Arguments.scan? choices true args
  if !given.readsInput then none
  return (← given.options.foldlM add {}).complete

end Sorting

/-! ## The reverse order -/

/-- How some bytes are reversed. -/
structure Reversal where
  separator : Bytes := [lf]
  /-- A separator belongs to what follows it. -/
  before : Bool := false

namespace Reversal

/-- The pieces of some bytes, the last one first. The bytes come last first, and `piece` is what was
taken from them for the piece under way. -/
def pieces (r : Reversal) (mark : Bytes) (piece : Bytes) : Nat → Bytes → List Bytes
  | 0, s => [s.reverse ++ piece]
  | _, [] => [piece]
  | fuel + 1, b :: s =>
    if mark.isPrefixOf (b :: s) then
      let rest := (b :: s).drop mark.length
      if r.before then (mark.reverse ++ piece) :: pieces r mark [] fuel rest
      else piece :: pieces r mark mark.reverse fuel rest
    else pieces r mark (b :: piece) fuel s

/-- The pieces of some bytes from the last to the first. -/
def apply (r : Reversal) (s : Bytes) : Bytes :=
  (r.pieces r.separator.reverse [] (s.length + 1) s.reverse).flatten

/-- The options of this program. -/
def choices : List Choice := [⟨'b', "before", false⟩, ⟨'s', "separator", true⟩]

/-- How some arguments ask for it. -/
def ofArguments? (args : List Bytes) : Option Reversal := do
  let given ← Arguments.scan? choices true args
  if !given.readsInput then none
  given.options.foldlM (fun (r : Reversal) (letter, value) =>
    match letter, value with
    | 's', [] => some { r with separator := [0] }
    | 's', separator => some { r with separator }
    | _, _ => some { r with before := true }) {}

end Reversal

/-! ## Numbers before lines -/

/-- Which lines are numbered. -/
inductive Numbered
  | all
  | nonempty
  | none
  | matching (r : Regex)

/-- A line is numbered. -/
def Numbered.selects (text : Bytes) : Numbered → Bool
  | all => true
  | nonempty => !text.isEmpty
  | none => false
  | matching r => (r.search text.toArray 0).isSome

/-- Where a number stands in its field. -/
inductive Alignment
  | left
  | right
  /-- At the right, with zeros in front. -/
  | zeros

/-- A part of a page. -/
inductive Section
  | header
  | body
  | footer

/-- How lines are numbered, and the next number. -/
structure Numbering where
  header : Numbered := .none
  body : Numbered := .nonempty
  footer : Numbered := .none
  alignment : Alignment := .right
  width : Nat := 6
  separator : Bytes := [9]
  step : Int := 1
  first : Int := 1
  next : Int := 1
  /-- Numbers go on from page to page. -/
  continuous : Bool := false
  /-- The part of the page at hand. -/
  part : Section := .body
  held : Bytes := []

namespace Numbering

/-- The lines that begin the parts of a page. -/
def begins? (text : Bytes) : Option Section :=
  match charsOf text with
  | ['\\', ':', '\\', ':', '\\', ':'] => some .header
  | ['\\', ':', '\\', ':'] => some .body
  | ['\\', ':'] => some .footer
  | _ => Option.none

/-- A number in its field. -/
def field (n : Numbering) : Bytes :=
  let digits := (toString n.next.natAbs).toList
  let sign := if n.next < 0 then ['-'] else []
  let fill (c : Char) := List.replicate (n.width - (sign.length + digits.length)) c
  bytesOf (match n.alignment with
    | .left => sign ++ digits ++ fill ' '
    | .right => fill ' ' ++ sign ++ digits
    | .zeros => sign ++ fill '0' ++ digits)

/-- Takes a line, which may lack its line feed. -/
def line (n : Numbering) (raw : Bytes) : Reply Numbering :=
  let text := chomp raw
  match begins? text with
  | some part =>
    let restarts : Bool := !n.continuous && match part with
      | .header => true
      | _ => false
    ⟨{ n with part, next := if restarts then n.first else n.next }, [lf], Option.none⟩
  | Option.none =>
    let which := match n.part with
      | .header => n.header
      | .body => n.body
      | .footer => n.footer
    if which.selects text then
      ⟨{ n with next := n.next + n.step }, n.field ++ n.separator ++ text ++ [lf], Option.none⟩
    else ⟨n, List.replicate (n.width + n.separator.length) 32 ++ text ++ [lf], Option.none⟩

/-- Takes a piece of the input. -/
def feed (n : Numbering) (s : Bytes) : Reply Numbering :=
  let (ready, held) := completeLines n.held s
  Reply.each line { n with held } [] ready

/-- The last output. -/
def close (n : Numbering) : Bytes :=
  if n.held.isEmpty then [] else (n.line n.held).output

/-- The lines that a text names. -/
def numbered? (text : List Char) : Option Numbered :=
  match text with
  | ['a'] => some .all
  | ['t'] => some .nonempty
  | ['n'] => some .none
  | 'p' :: expression =>
    (Regex.parse { extended := false } expression).map fun (r, _) => .matching r
  | _ => Option.none

/-- The options of this program. -/
def choices : List Choice :=
  [⟨'b', "body-numbering", true⟩, ⟨'h', "header-numbering", true⟩,
    ⟨'f', "footer-numbering", true⟩, ⟨'s', "number-separator", true⟩,
    ⟨'w', "number-width", true⟩, ⟨'i', "line-increment", true⟩,
    ⟨'v', "starting-line-number", true⟩, ⟨'n', "number-format", true⟩, ⟨'p', "no-renumber", false⟩]

/-- The numbering that an option adds to. -/
def add (n : Numbering) : Char × Bytes → Option Numbering
  | ('b', value) => (numbered? (charsOf value)).map fun body => { n with body }
  | ('h', value) => (numbered? (charsOf value)).map fun header => { n with header }
  | ('f', value) => (numbered? (charsOf value)).map fun footer => { n with footer }
  | ('s', value) => some { n with separator := value }
  | ('w', value) =>
    match readDecimal (charsOf value) with
    | some (width + 1, []) => some { n with width := width + 1 }
    | _ => Option.none
  | ('i', value) => (signed? (charsOf value)).map fun step => { n with step }
  | ('v', value) => (signed? (charsOf value)).map fun first => { n with first, next := first }
  | ('n', value) =>
    match charsOf value with
    | ['l', 'n'] => some { n with alignment := .left }
    | ['r', 'n'] => some { n with alignment := .right }
    | ['r', 'z'] => some { n with alignment := .zeros }
    | _ => Option.none
  | _ => some { n with continuous := true }

/-- The numbering that some arguments ask for. -/
def ofArguments? (args : List Bytes) : Option Numbering := do
  let given ← Arguments.scan? choices true args
  if !given.readsInput then Option.none
  given.options.foldlM add {}

end Numbering

/-! ## Counting -/

/-- What is counted, and the counts so far. -/
structure Counting where
  wantLines : Bool := false
  wantWords : Bool := false
  wantChars : Bool := false
  wantBytes : Bool := false
  wantWidth : Bool := false
  /-- The name of the input is written. -/
  named : Bool := false
  lineCount : Nat := 0
  words : Nat := 0
  bytes : Nat := 0
  /-- The last byte belongs to a word. -/
  inWord : Bool := false
  /-- The place in the line, and the last place in any line so far. -/
  column : Nat := 0
  width : Nat := 0

namespace Counting

/-- A printable byte that is no blank. -/
def isGraph (b : UInt8) : Bool := 33 ≤ b && b < 127

/-- A byte between words. -/
def isSpace (b : UInt8) : Bool := b = 32 || (9 ≤ b && b ≤ 13)

/-- Counts a byte. -/
def byte (c : Counting) (b : UInt8) : Counting :=
  let endsLine : Bool := b = lf || b = 12 || b = cr
  let column := if endsLine then 0
    else if b = 9 then c.column + (8 - c.column % 8)
    else if b = 32 || isGraph b then c.column + 1
    else c.column
  let inWord := if isSpace b then false else c.inWord || isWordStart b
  { c with
    lineCount := if b = lf then c.lineCount + 1 else c.lineCount
    words := if !c.inWord && inWord then c.words + 1 else c.words
    bytes := c.bytes + 1
    inWord
    column
    width := max c.width column }
where
  /-- A byte with which a word may start. -/
  isWordStart (b : UInt8) : Bool := isGraph b

/-- Counts a piece of the input. -/
def feed (c : Counting) (s : Bytes) : Reply Counting := ⟨s.foldl byte c, [], none⟩

/-- The counts as text: a single one as it is, several in columns. -/
def close (c : Counting) : Bytes :=
  let count (wanted : Bool) (n : Nat) : List Nat := if wanted then [n] else []
  let counts := count c.wantLines c.lineCount ++ count c.wantWords c.words ++
    count c.wantChars c.bytes ++ count c.wantBytes c.bytes ++ count c.wantWidth c.width
  let columns := match counts with
    | [n] => [aligned 1 n]
    | _ => counts.map (aligned 7)
  (columns.intersperse [32]).flatten ++ (if c.named then [32, 45] else []) ++ [lf]

/-- The options of this program. -/
def choices : List Choice :=
  [⟨'l', "lines", false⟩, ⟨'w', "words", false⟩, ⟨'m', "chars", false⟩, ⟨'c', "bytes", false⟩,
    ⟨'L', "max-line-length", false⟩]

/-- The counting that an option adds to. -/
def add (c : Counting) : Char → Counting
  | 'l' => { c with wantLines := true }
  | 'w' => { c with wantWords := true }
  | 'm' => { c with wantChars := true }
  | 'c' => { c with wantBytes := true }
  | _ => { c with wantWidth := true }

/-- The counting that some arguments ask for; without options lines, words and bytes are counted. -/
def ofArguments? (args : List Bytes) : Option Counting := do
  let given ← Arguments.scan? choices true args
  if !given.readsInput ∨ 1 < given.operands.length then none
  let start : Counting := if given.options.isEmpty then
      { wantLines := true, wantWords := true, wantBytes := true }
    else {}
  return given.options.foldl (fun c (letter, _) => c.add letter)
    { start with named := !given.operands.isEmpty }

end Counting

end Coprocess.Program
