import Coprocess.Program.Arguments
import Coprocess.Program.Filter
import Coprocess.Program.Regex

/-!
# Selecting lines

* `Beginning`: the first lines or bytes of the input, or all but the last of them;
* `Search`: the lines that match a pattern, or their number.
-/

namespace Coprocess.Program

/-! ## The beginning of the input -/

/-- What of an input is kept. -/
inductive Extent
  | lines (count : Nat)
  | bytes (count : Nat)
  /-- All but the last lines. -/
  | linesBut (count : Nat)
  | bytesBut (count : Nat)

/-- A filter that keeps the beginning of its input. -/
structure Beginning where
  extent : Extent
  /-- Bytes that are held back. -/
  held : Bytes := []

namespace Beginning

/-- The first `count` lines of some bytes, and how many of them are missing. -/
def takeLines (written : Bytes) : Nat → Bytes → Bytes × Nat
  | 0, _ => (written.reverse, 0)
  | missing, [] => (written.reverse, missing)
  | missing + 1, b :: rest =>
    takeLines (b :: written) (if b = lf then missing else missing + 1) rest

/-- All but the last `count` lines, and those lines. -/
def splitLast (count : Nat) (s : Bytes) : Bytes × Bytes :=
  let total := countLf s + if s.getLast?.all (· = lf) then 0 else 1
  let (front, _) := takeLines [] (total - count) s
  (front, s.drop front.length)

/-- How many bytes are read at a time. -/
def chunk (b : Beginning) : Nat :=
  match b.extent with
  | .bytes count => min 8192 count
  | _ => 8192

/-- A filter that keeps nothing more is done. -/
def isDone (b : Beginning) : Bool :=
  match b.extent with
  | .lines 0 => true
  | .bytes 0 => true
  | _ => false

/-- A reply that ends a filter that keeps nothing more. -/
def answer (b : Beginning) (output : Bytes) : Reply Beginning :=
  ⟨b, output, if b.isDone then some 0 else none⟩

/-- Keeps what belongs to the beginning. -/
def feed (b : Beginning) (s : Bytes) : Reply Beginning :=
  match b.extent with
  | .lines count =>
    let (output, missing) := takeLines [] count s
    { b with extent := .lines missing }.answer output
  | .bytes count => { b with extent := .bytes (count - s.length) }.answer (s.take count)
  | .linesBut count =>
    let all := b.held ++ s
    -- An unterminated line may still grow.
    let (output, held) := splitLast (count + 1) all
    ⟨{ b with held }, output, none⟩
  | .bytesBut count =>
    let all := b.held ++ s
    ⟨{ b with held := all.drop (all.length - count) }, all.take (all.length - count), none⟩

/-- What is kept of the bytes held back when the input ends. -/
def close (b : Beginning) : Bytes :=
  match b.extent with
  | .linesBut count => (splitLast count b.held).1
  | _ => []

/-- The factor that letters behind a number stand for. -/
def factor? (letters : List Char) : Option Nat :=
  let power (base : Nat) : Char → Option Nat
    | 'k' => some base
    | 'K' => some base
    | 'm' => some (base * base)
    | 'M' => some (base * base)
    | 'G' => some (base * base * base)
    | 'T' => some (base * base * base * base)
    | _ => none
  match letters with
  | [] => some 1
  | ['b'] => some 512
  | [c] => power 1024 c
  | [c, 'B'] => power 1000 c
  | [c, 'i', 'B'] => power 1024 c
  | _ => none

/-- The extent that a number after an option stands for. -/
def extent? (inBytes : Bool) (text : List Char) : Option Extent := do
  let (elided, digits) := match text with
    | '-' :: rest => (true, rest)
    | '+' :: rest => (false, rest)
    | _ => (false, text)
  let (n, letters) ← readDecimal digits
  let count := n * (← factor? letters)
  return match inBytes, elided with
    | false, false => .lines count
    | true, false => .bytes count
    | false, true => .linesBut count
    | true, true => .bytesBut count

/-- The options of this program. -/
def choices : List Choice :=
  [⟨'n', "lines", true⟩, ⟨'c', "bytes", true⟩, ⟨'q', "quiet", false⟩, ⟨'q', "silent", false⟩,
    ⟨'v', "verbose", false⟩]

/-- What is asked for: the extent, and whether the input is named. -/
abbrev Wish := Extent × Bool

/-- The wish that an option adds to; the last one counts. -/
def Wish.add (w : Wish) : Char × Bytes → Option Wish
  | ('n', value) => (extent? false (charsOf value)).map (·, w.2)
  | ('c', value) => (extent? true (charsOf value)).map (·, w.2)
  | (letter, _) => some (w.1, letter = 'v')

/-- A number that stands for an option right at the start, with letters that say what it counts. -/
def leading? (arg : Bytes) : Option Wish := do
  match charsOf arg with
  | '-' :: text =>
    let (n, letters) ← readDecimal text
    letters.foldlM (fun (w : Wish) c =>
      match c, w.1 with
      | 'c', .lines n => some (.bytes n, w.2)
      | 'l', _ => some w
      | 'q', _ => some (w.1, false)
      | 'v', _ => some (w.1, true)
      | _, _ => none) (.lines n, false)
  | _ => none

/-- What some arguments ask for. -/
def ofArguments? (args : List Bytes) : Option (Beginning × Bool) := do
  let (start, args) : Wish × List Bytes := match args with
    | arg :: rest => ((leading? arg).map (·, rest)).getD ((.lines 10, false), args)
    | [] => ((.lines 10, false), [])
  let given ← Arguments.scan? choices true args
  if !given.readsInput ∨ 1 < given.operands.length then none
  let (extent, named) ← given.options.foldlM Wish.add start
  return ({ extent }, named)

end Beginning

/-! ## Searching -/

/-- What is written for the lines that are kept. -/
inductive Listing
  | lines
  /-- Only the parts that match. -/
  | parts
  | count
  /-- Only the name of the input, if lines are kept. -/
  | name
  /-- Only the name of the input, if no lines are kept. -/
  | noName
  | nothing
  deriving DecidableEq

/-- A filter that keeps lines which match one of some patterns. -/
structure Search where
  patterns : List Regex
  /-- Keeps the other lines. -/
  inverted : Bool := false
  listing : Listing := .lines
  named : Bool := false
  numbered : Bool := false
  /-- Writes how many bytes precede. -/
  located : Bool := false
  /-- The most lines that are kept. -/
  limit : Option Nat := none
  /-- Bytes that are no text count as text. -/
  tolerant : Bool := false
  held : Bytes := []
  number : Nat := 0
  /-- How many bytes were read before the line at hand. -/
  offset : Nat := 0
  selected : Nat := 0

namespace Search

/-- The name of the input. -/
def inputName : Bytes := Bytes.ofString "(standard input)"

/-- The leftmost match of one of some patterns from `pos` on, the longest of those that start there.
-/
def find (patterns : List Regex) (line : Array UInt8) (pos : Nat) : Option (Nat × Nat) :=
  patterns.foldl (fun best r =>
    match best, r.search line pos with
    | none, found => found.map fun (start, stop, _) => (start, stop)
    | best, none => best
    | some (start, stop), some (start', stop', _) =>
      if start' < start ∨ (start' = start ∧ stop < stop') then some (start', stop')
      else some (start, stop)) none

/-- The matches in a line that are not empty, at most `fuel` of them. -/
def parts (patterns : List Regex) (line : Array UInt8) : Nat → Nat → List (Nat × Nat)
  | 0, _ => []
  | fuel + 1, pos =>
    match find patterns line pos with
    | none => []
    | some (start, stop) =>
      if start < stop then (start, stop) :: parts patterns line fuel stop
      else if start < line.size then parts patterns line fuel (start + 1)
      else []

/-- What precedes a line or a part of it that starts at an offset. -/
def label (g : Search) (offset : Nat) : Bytes :=
  let mark (wanted : Bool) (text : Bytes) : Bytes := if wanted then text ++ [58] else []
  mark g.named inputName ++ mark g.numbered (Bytes.ofString (toString g.number)) ++
    mark g.located (Bytes.ofString (toString offset))

/-- What is written for a line that is kept. -/
def report (g : Search) (text : Array UInt8) : Bytes :=
  match g.listing with
  | .lines => g.label g.offset ++ text.toList ++ [lf]
  | .parts =>
    if g.inverted then []
    else (parts g.patterns text (text.size + 1) 0).flatMap fun (start, stop) =>
      g.label (g.offset + start) ++ (text.extract start stop).toList ++ [lf]
  | _ => []

/-- Nothing more is needed. -/
def isDone (g : Search) : Bool :=
  g.limit = some g.selected ||
    (0 < g.selected && (g.listing = .nothing || g.listing = .name || g.listing = .noName))

/-- What is written when the search is over. -/
def summary (g : Search) : Bytes :=
  let name := if g.named then inputName ++ [58] else []
  match g.listing with
  | .count => name ++ Bytes.ofString (toString g.selected ++ "\n")
  | .name => if 0 < g.selected then inputName ++ [lf] else []
  | .noName => if g.selected = 0 then inputName ++ [lf] else []
  | _ => []

/-- The exit code. -/
def code (g : Search) : Nat := if g.selected = 0 then 1 else 0

/-- Takes a line, which may lack its line feed. -/
def line (g : Search) (raw : Bytes) : Reply Search :=
  let text := (chomp raw).toArray
  let g := { g with number := g.number + 1 }
  let (g, output) := if g.limit ≠ some 0 ∧ (find g.patterns text 0).isSome != g.inverted then
      let g := { g with selected := g.selected + 1 }
      (g, g.report text)
    else (g, [])
  let g := { g with offset := g.offset + raw.length }
  if g.isDone then ⟨g, output ++ g.summary, some g.code⟩ else ⟨g, output, none⟩

/-- Input that holds a zero byte is no text: lines are counted, but not shown. -/
def checked (g : Search) (s : Bytes) : Search :=
  if g.tolerant || !s.contains 0 then g
  else match g.listing with
    | .lines => { g with listing := .nothing }
    | .parts => { g with listing := .nothing }
    | _ => g

/-- Takes a piece of the input. -/
def feed (g : Search) (s : Bytes) : Reply Search :=
  let g := g.checked s
  let (ready, held) := completeLines g.held s
  Reply.each line { g with held } [] ready

/-- The last output and the exit code. -/
def close (g : Search) : Bytes × Nat :=
  let r := if g.held.isEmpty then ⟨g, [], none⟩ else g.line g.held
  if r.done.isSome then (r.output, r.state.code) else (r.output ++ r.state.summary, r.state.code)

/-- The options of a search. -/
def choices : List Choice :=
  [⟨'e', "regexp", true⟩, ⟨'m', "max-count", true⟩, ⟨'v', "invert-match", false⟩,
    ⟨'x', "line-regexp", false⟩, ⟨'w', "word-regexp", false⟩, ⟨'c', "count", false⟩,
    ⟨'n', "line-number", false⟩, ⟨'q', "quiet", false⟩, ⟨'q', "silent", false⟩,
    ⟨'i', "ignore-case", false⟩, ⟨'y', "", false⟩, ⟨'E', "extended-regexp", false⟩,
    ⟨'G', "basic-regexp", false⟩, ⟨'F', "fixed-strings", false⟩, ⟨'a', "text", false⟩,
    ⟨'o', "only-matching", false⟩, ⟨'l', "files-with-matches", false⟩,
    ⟨'L', "files-without-match", false⟩, ⟨'H', "with-filename", false⟩,
    ⟨'h', "no-filename", false⟩, ⟨'b', "byte-offset", false⟩, ⟨'s', "no-messages", false⟩,
    ⟨'U', "binary", false⟩, ⟨'u', "line-buffered", false⟩]

/-- How much of a line a pattern has to fit. -/
inductive Extension
  | part
  | word
  | line

/-- What a search is asked for besides its patterns. -/
structure Wish where
  style : Regex.Style := { extended := false, strict := false }
  /-- Patterns are plain text. -/
  plain : Bool := false
  extension : Extension := .part
  search : Search := { patterns := [] }
  patterns : List Bytes := []

/-- The wish for a listing; of two listings, the one that writes less. -/
def Wish.listed (w : Wish) (listing : Listing) : Wish :=
  let rank : Listing → Nat
    | .lines => 0
    | .parts => 1
    | .count => 2
    | .name => 3
    | .noName => 3
    | .nothing => 4
  if rank listing < rank w.search.listing then w
  else { w with search := { w.search with listing } }

/-- The wish that an option adds to. -/
def Wish.add (w : Wish) : Char × Bytes → Option Wish
  | ('e', value) => some { w with patterns := w.patterns ++ [value] }
  | ('m', value) =>
    match readDecimal (charsOf value) with
    | some (n, []) => some { w with search := { w.search with limit := some n } }
    | _ => none
  | ('v', _) => some { w with search := { w.search with inverted := true } }
  | ('x', _) => some { w with extension := .line }
  | ('w', _) => some { w with extension := match w.extension with
    | .line => .line
    | _ => .word }
  | ('c', _) => some (w.listed .count)
  | ('l', _) => some (w.listed .name)
  | ('L', _) => some (w.listed .noName)
  | ('q', _) => some (w.listed .nothing)
  | ('o', _) => some (w.listed .parts)
  | ('n', _) => some { w with search := { w.search with numbered := true } }
  | ('b', _) => some { w with search := { w.search with located := true } }
  | ('H', _) => some { w with search := { w.search with named := true } }
  | ('h', _) => some { w with search := { w.search with named := false } }
  | ('a', _) => some { w with search := { w.search with tolerant := true } }
  | ('i', _) => some { w with style := { w.style with foldCase := true } }
  | ('y', _) => some { w with style := { w.style with foldCase := true } }
  | ('E', _) => some { w with style := { w.style with extended := true }, plain := false }
  | ('G', _) => some { w with style := { w.style with extended := false }, plain := false }
  | ('F', _) => some { w with plain := true }
  | _ => some w
/-- The pattern that a line of text stands for. -/
def pattern? (w : Wish) (text : Bytes) : Option Regex := do
  let r ← if w.plain then
      pure ((charsOf text).foldr (fun c r => .seq (Regex.literal w.style c) r) .empty)
    else (Regex.parse w.style (charsOf text)).map (·.1)
  let between (before behind : Regex) : Regex := .seq before (.seq r behind)
  return match w.extension with
    | .part => r
    | .word => between (.edge fun before _ => !Regex.inWord before)
        (.edge fun _ behind => !Regex.inWord behind)
    | .line => between (Regex.lineStart false) (Regex.lineEnd false)

/-- The search that some arguments ask for. -/
def ofArguments? (args : List Bytes) : Option Search := do
  let given ← Arguments.scan? choices true args
  let w ← given.options.foldlM Wish.add {}
  let (patterns, inputs) ← match w.patterns, given.operands with
    | [], p :: inputs => pure ([p], inputs)
    | [], [] => none
    | patterns, inputs => pure (patterns, inputs)
  if !inputs.all fun name => charsOf name = ['-'] then none
  let texts := patterns.flatMap fun p =>
    if p.isEmpty then [[]]
    else lines p ++ if p.getLast? = some lf then [[]] else []
  let patterns ← texts.mapM (pattern? w)
  return { w.search with patterns }

end Search

end Coprocess.Program
