import Coprocess.Program.Editor.Script
import Coprocess.Program.Filter

/-!
# Editing line by line

An editor reads a line, runs its script on it, and writes it. It looks for a further line only when
the script asks whether there is one.

* `Editor`: the script and the state of a run;
* `Editor.feed`, `Editor.close`.
-/

namespace Coprocess.Program

/-- The state of an editor. -/
structure Editor where
  script : Script
  /-- The line at hand. -/
  space : Bytes := []
  /-- The text put aside, and whether it had a line feed. -/
  held : Bytes := []
  heldTerminated : Bool := true
  /-- The number of the line at hand. -/
  number : Nat := 0
  /-- The line at hand had a line feed. -/
  terminated : Bool := true
  unread : Bytes := []
  /-- Nothing more will come. -/
  ended : Bool := false
  /-- The ranges under way, by the place of their command, each with its last line if it is known.
  -/
  ranges : List (Nat × Option Nat) := []
  /-- Texts to be written after the line at hand. -/
  queue : List Bytes := []
  /-- What was written, last piece first. -/
  written : List Bytes := []
  /-- The last line written lacks its line feed. -/
  owesLf : Bool := false
  replaced : Bool := false
  lastPattern : Option Regex := none
  /-- An expression was used before there was one. -/
  lost : Bool := false
  /-- The next cycle works on the line at hand. -/
  again : Bool := false

/-- A part of an editor's work; `none` while it has to wait for input. -/
abbrev Edit := StateT Editor Option

namespace Editor

/-- How the work on a line ends. -/
inductive Turn
  | cycle (print : Bool)
  | quit (print : Bool) (code : Nat)

/-- Nothing is left to read. -/
def atEnd : Edit Bool := do
  let e ← get
  if !e.unread.isEmpty then return false
  if e.ended then return true
  failure

/-- Reads a line; there has to be something to read. -/
def takeLine : Edit Bytes := do
  let e ← get
  let (line, rest) := cutLine e.unread
  let terminated := line.getLast? = some lf
  if !terminated && !e.ended then failure
  set { e with unread := rest, terminated, number := e.number + 1 }
  return chomp line

/-- Writes a text and a line feed, unless the text ends the input without one. -/
def emit (s : Bytes) (terminated : Bool) : Edit Unit := modify fun e =>
  let lead := if e.owesLf then [lf] else []
  let tail := if terminated then [lf] else []
  { e with written := (lead ++ s ++ tail) :: e.written, owesLf := !terminated }

/-- Writes the line at hand. -/
def emitSpace : Edit Unit := do
  let e ← get
  emit e.space e.terminated

/-- Writes a text as it is, after the line feed that is owed. -/
def emitText (s : Bytes) : Edit Unit := modify fun e =>
  let lead := if e.owesLf then [lf] else []
  { e with written := (lead ++ s) :: e.written, owesLf := false }

/-- Writes the texts that were kept for the end of the line. -/
def emitQueue : Edit Unit := do
  let e ← get
  e.queue.forM emitText
  modify fun e => { e with queue := [] }

/-- The expression that is meant, which becomes the one used last. -/
def recallPattern (r : Option Regex) : Edit (Option Regex) := do
  let e ← get
  match r.or e.lastPattern with
  | some r =>
    set { e with lastPattern := some r }
    return some r
  | none =>
    set { e with lost := true }
    return none

/-- A byte with nothing but printable characters. -/
def spelled (b : UInt8) : Bytes :=
  let letter (c : Char) : Bytes := bytesOf ['\\', c]
  match Char.ofNat b.toNat with
  | '\\' => letter '\\'
  | '\x07' => letter 'a'
  | '\x08' => letter 'b'
  | '\x0c' => letter 'f'
  | '\n' => letter 'n'
  | '\r' => letter 'r'
  | '\t' => letter 't'
  | '\x0b' => letter 'v'
  | _ =>
    if 32 ≤ b ∧ b < 127 then [b]
    else [92, 48 + b / 64, 48 + b / 8 % 8, 48 + b % 8]

/-- A line with nothing but printable characters, in pieces of less than `length` of them. The
pieces are held last first, and `used` is the length of the last one. -/
def spellOut (length : Nat) (pieces : List Bytes) (used : Nat) : Bytes → Bytes
  | [] => (bytesOf ['$', '\n'] :: pieces).reverse.flatten
  | b :: rest =>
    let text := spelled b
    if 0 < length ∧ length - 1 < used + text.length then
      spellOut length (text :: bytesOf ['\\', '\n'] :: pieces) text.length rest
    else spellOut length (text :: pieces) (used + text.length) rest

/-- The line at hand has an address. -/
def fits : Address → Edit Bool
  | .line n => do return (← get).number = n
  | .last => atEnd
  | .every first step => do
    let n := (← get).number
    return if step = 0 then n = first else first ≤ n && (n - first) % step = 0
  | .pattern r => do
    match ← recallPattern r with
    | none => return false
    | some r => return (r.search (← get).space.toArray 0).isSome

/-- Begins or ends a range at a place. -/
def setRange (place : Nat) (stop : Option (Option Nat)) : Edit Unit := modify fun e =>
  let others := e.ranges.filter (·.1 ≠ place)
  { e with ranges := match stop with
    | some stop => (place, stop) :: others
    | none => others }

/-- The line at hand is in the range that begins at it. -/
def beginRange (place : Nat) (stop : RangeEnd) : Edit Unit := do
  let n := (← get).number
  let lastLine (m : Nat) : Edit Unit := if n < m then setRange place (some (some m)) else pure ()
  match stop with
  | .address (.line m) => lastLine m
  | .address _ => setRange place (some none)
  | .after count => lastLine (n + count)
  | .multiple m => if m = 0 then pure () else lastLine ((n / m + 1) * m)

/-- The line at hand is selected by the command at a place. -/
def selects (place : Nat) : Selector → Edit Bool
  | .always => return true
  | .one a => fits a
  | .range start stop => do
    let n := (← get).number
    match (← get).ranges.lookup place with
    | none =>
      if ← fits start then
        beginRange place stop
        return true
      return false
    | some (some m) =>
      if m ≤ n then setRange place none
      return n ≤ m
    | some none =>
      match stop with
      | .address a => if ← fits a then setRange place none
      | _ => pure ()
      return true

/-- The letters of a replacement as they are to be written. -/
def recase (mode once : Casing) (s : Bytes) : Bytes × Casing :=
  let change (c : Casing) (b : UInt8) : UInt8 := match c with
    | .upper | .upperNext => upper b
    | .lower | .lowerNext => lower b
    | .keep => b
  match once, s with
  | _, [] => ([], once)
  | .keep, _ => (s.map (change mode), .keep)
  | _, b :: rest => (change once b :: rest.map (change mode), .keep)

/-- What stands in place of a match. -/
def expand (line : Array UInt8) (start stop : Nat) (groups : Regex.Groups) (parts : List Part) :
    Array UInt8 :=
  let add (out : Array UInt8 × Casing × Casing) (s : Bytes) : Array UInt8 × Casing × Casing :=
    let (s, once) := recase out.2.1 out.2.2 s
    (out.1 ++ s, out.2.1, once)
  let result := parts.foldl (fun out part =>
    match part with
    | .text s => add out s
    | .group 0 => add out (line.extract start stop).toList
    | .group n =>
      match groups.lookup n with
      | some (a, b) => add out (line.extract a b).toList
      | none => out
    | .casing .upperNext => (out.1, out.2.1, .upperNext)
    | .casing .lowerNext => (out.1, out.2.1, .lowerNext)
    | .casing c => (out.1, c, .keep)) (#[], Casing.keep, Casing.keep)
  result.1

/-- A substitution. -/
structure Substitution where
  pattern : Regex
  parts : List Part
  nth : Nat
  global : Bool

/-- Substitutes from `pos` on after `count` matches, of which the last ended at `stopped`. An empty
match where the last one ended does not count. -/
def Substitution.run (s : Substitution) (line : Array UInt8) :
    Nat → Nat → Nat → Option Nat → Array UInt8 → Bool → Array UInt8 × Bool
  | 0, pos, _, _, out, done => (out ++ line.extract pos line.size, done)
  | fuel + 1, pos, count, stopped, out, done =>
    match s.pattern.search line pos with
    | none => (out ++ line.extract pos line.size, done)
    | some (start, stop, groups) =>
      let out := out ++ line.extract pos start
      let skipByte (count : Nat) (out : Array UInt8) (done : Bool) : Array UInt8 × Bool :=
        if start < line.size then
          s.run line fuel (start + 1) count none (out ++ line.extract start (start + 1)) done
        else (out, done)
      if start = stop ∧ stopped = some start then skipByte count out done
      else
        let count := count + 1
        let chosen := count = s.nth ∨ (s.global ∧ s.nth ≤ count)
        let out := out ++ if chosen then expand line start stop groups s.parts
          else line.extract start stop
        let done := done || chosen
        if chosen ∧ !s.global then (out ++ line.extract stop line.size, done)
        else if start = stop then skipByte count out done
        else s.run line fuel stop count (some stop) out done

/-- Substitutes in the line at hand; tells whether there was anything to replace. -/
def substitute (s : Substitution) : Edit Bool := do
  let e ← get
  let line := e.space.toArray
  let (out, done) := s.run line (line.size + 2) 0 0 none #[] false
  if done then set { e with space := out.toList, replaced := true }
  return done

/-- Where the work goes on after a command. -/
inductive Onward
  | goTo (place : Nat)
  | turn (t : Turn)

/-- Carries out an operation of the command at a place. -/
def perform (place : Nat) (selector : Selector) (o : Operation) : Edit Onward := do
  let on : Onward := .goTo (place + 1)
  let e ← get
  match o with
  | .block _ => return on
  | .nothing => return on
  | .branch condition label =>
    let taken := match condition with
      | .always => true
      | .replaced => e.replaced
      | .unreplaced => !e.replaced
    match condition with
    | .always => pure ()
    | _ => set { e with replaced := false }
    if taken then
      return .goTo (if label.isEmpty then e.script.code.size
        else (e.script.labels.lookup label).getD e.script.code.size)
    return on
  | .append text => set { e with queue := e.queue ++ [text] }; return on
  | .insert text => emitText text; return on
  | .change text =>
    let last := match selector with
      | .range .. => (e.ranges.lookup place).isNone
      | _ => true
    if last then emitText text
    return .turn (.cycle false)
  | .delete => return .turn (.cycle false)
  | .deleteFirst =>
    match e.space.dropWhile (· ≠ lf) with
    | [] => return .turn (.cycle false)
    | _ :: rest => set { e with space := rest, again := true }; return .turn (.cycle false)
  | .write => emitSpace; return on
  | .writeFirst =>
    emit (e.space.takeWhile (· ≠ lf)) (e.space.contains lf || e.terminated)
    return on
  | .writeNumber => emit (Bytes.ofString (toString e.number)) true; return on
  | .writeName => emit (Bytes.ofString "-") true; return on
  | .spell length =>
    emitText (spellOut (length.getD e.script.length) [] 0 e.space)
    return on
  | .next =>
    if ← atEnd then return .turn (.quit (!e.script.silent) 0)
    if !e.script.silent then emitSpace
    emitQueue
    let line ← takeLine
    modify fun e => { e with space := line }
    return on
  | .joinNext =>
    if ← atEnd then return .turn (.quit (!e.script.silent) 0)
    emitQueue
    let line ← takeLine
    modify fun e => { e with space := e.space ++ [lf] ++ line }
    return on
  | .hold => set { e with held := e.space, heldTerminated := e.terminated }; return on
  | .holdMore =>
    set { e with held := e.held ++ [lf] ++ e.space, heldTerminated := e.terminated }
    return on
  | .recall => set { e with space := e.held, terminated := e.heldTerminated }; return on
  | .recallMore =>
    set { e with space := e.space ++ [lf] ++ e.held, terminated := e.heldTerminated }
    return on
  | .exchange =>
    set { e with
      space := e.held
      terminated := e.heldTerminated
      held := e.space
      heldTerminated := e.terminated }
    return on
  | .clear => set { e with space := [] }; return on
  | .quit silent code =>
    if silent then set { e with queue := [] }
    else
      if !e.script.silent then emitSpace
      emitQueue
      emitText []
    return .turn (.quit false code)
  | .substitute pattern parts nth global prints =>
    match ← recallPattern pattern with
    | none => return on
    | some pattern =>
      if ← substitute { pattern, parts, nth, global } then
        (List.range prints).forM fun _ => emitSpace
      return on
  | .transliterate pairs =>
    set { e with space := e.space.map fun b => (pairs.lookup b).getD b }
    return on

/-- Runs the script from a place on. The fuel bounds the commands that are run. -/
def work : Nat → Nat → Edit Turn
  | 0, _ => return .cycle false
  | fuel + 1, place => do
    let e ← get
    match e.script.code[place]? with
    | none => return .cycle (!e.script.silent)
    | some i =>
      let selected ← selects place i.selector
      if (← get).lost then return .quit false 1
      if selected != i.negated then
        let onward ← perform place i.selector i.operation
        if (← get).lost then return .quit false 1
        match onward with
        | .goTo place => work fuel place
        | .turn t => return t
      else match i.operation with
        | .block behind => work fuel behind
        | _ => work fuel (place + 1)

/-- The most commands that are run on a line. -/
def commandLimit : Nat := 1000000

/-- Reads a line and works on it; the exit code if the editor is done. -/
def cycle : Edit (Option Nat) := do
  let e ← get
  if e.again then set { e with again := false }
  else
    if ← atEnd then return some 0
    let line ← takeLine
    modify fun e => { e with space := line, replaced := false }
  let finish (print : Bool) : Edit Unit := do
    if print then emitSpace
    emitQueue
  match ← work commandLimit 0 with
  | .cycle print => finish print; return none
  | .quit print code => finish print; return some code

/-- Works on lines as long as it has not to wait for input. -/
def drive : Nat → Editor → Reply Editor
  | 0, e => ⟨{ e with written := [] }, e.written.reverse.flatten, none⟩
  | fuel + 1, e =>
    match cycle.run e with
    | none => ⟨{ e with written := [] }, e.written.reverse.flatten, none⟩
    | some (none, e) => drive fuel e
    | some (some code, e) => ⟨{ e with written := [] }, e.written.reverse.flatten, some code⟩

/-- How many cycles the input at hand makes at most, unless a script makes lines longer. -/
def cycleBound (e : Editor) : Nat := e.unread.length + e.space.length + 2

/-- Takes a piece of the input. -/
def feed (e : Editor) (s : Bytes) : Reply Editor :=
  let e := { e with unread := e.unread ++ s }
  drive e.cycleBound e

/-- The last output and the exit code. -/
def close (e : Editor) : Bytes × Nat :=
  let r := drive e.cycleBound { e with ended := true }
  (r.output, r.done.getD 0)

/-- The lines before the first count as the beginning of ranges from line 0 on. -/
def start (script : Script) : Editor :=
  let ranges := (List.range script.code.size).filterMap fun place =>
    match script.code[place]?.map (·.selector) with
    | some (.range (.line 0) _) => some (place, none)
    | _ => none
  { script, ranges }

/-- The editor that some arguments ask for, or the exit code of a refusal. -/
def ofArguments (args : List Bytes) : Except Nat Editor := (Script.ofArguments args).map start

end Editor

end Coprocess.Program
