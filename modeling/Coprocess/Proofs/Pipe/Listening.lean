import Coprocess.Proofs.Collector.Collecting
import Mathlib.Data.List.TakeDrop

/-!
# Lines that arrive in pieces

The output of a child arrives piece by piece and ends some time. Meanwhile its reader is asked for
lines, and whether there is more to read, in any order.

* `Listener`: a reader with the pieces on their way, the calls still to be answered, and the
  answers;
* `Listener.Event`, `Listener.next`, `Listener.run`: a piece arrives, or the call under way goes on;
* `Listener.Call.answer`: what a call returns after so many lines were read;
* `Listener.Inv`, **`Listener.run_inv`**: what holds after any events;
* `Listener.Goes`, `Listener.goes_of_proceed`: what a step of a call comes to;
* `Listener.next_work`, `Listener.exists_next`: no call is kept waiting for ever;
* **`Listener.lines_as_sent`**: the lines are those of the whole stream, however it arrived, and a
  look for more changes nothing.
-/

namespace Coprocess

/-- What a reader can be asked for. -/
inductive Listener.Call
  | readLine
  /-- Whether there is more to read. -/
  | pending
  deriving DecidableEq

/-- What a call returns. -/
inductive Listener.Answer
  | line (line : Option Bytes)
  | pending (more : Bool)
  deriving DecidableEq

/-- A reader whose input arrives in pieces. -/
structure Listener where
  reader : LineReader := {}
  pipe : Pipe := {}
  /-- The pieces that have not arrived yet. -/
  coming : List Bytes
  /-- The calls that are not answered yet; the first one is under way. -/
  asked : List Listener.Call
  answered : List Listener.Answer := []

namespace Listener

/-- A reader before anything has arrived. -/
def start (pieces : List Bytes) (calls : List Call) : Listener where
  coming := pieces
  asked := calls

/-- The next piece arrives, or the input ends. -/
def arrive (s : Listener) : Option Listener :=
  match s.coming with
  | piece :: coming =>
    some { s with pipe := { s.pipe with bytes := s.pipe.bytes ++ piece }, coming }
  | [] => if s.pipe.writable then some { s with pipe := s.pipe.closeWriter } else none

/-- Returns from the call under way. -/
def reply (s : Listener) (answer : Answer) (reader : LineReader) (pipe : Pipe) : Listener :=
  { s with reader, pipe, asked := s.asked.tail, answered := s.answered ++ [answer] }

/-- Moves on the call under way. -/
def proceed (s : Listener) : Option Listener :=
  match s.asked with
  | [] => none
  | .readLine :: _ =>
    match s.reader.readLine s.pipe with
    | .line line reader pipe => some (s.reply (.line (some line)) reader pipe)
    | .ended reader pipe => some (s.reply (.line none) reader pipe)
    | .partly reader pipe => some { s with reader, pipe }
    | .blocked => none
  | .pending :: _ =>
    match s.reader.fill s.pipe with
    | .known more reader pipe => some (s.reply (.pending more) reader pipe)
    | .blocked => none

/-- What can happen. -/
inductive Event
  | arrive
  /-- The call under way takes a step. -/
  | proceed

/-- What is after an event, or `none` while it cannot happen. -/
def next (s : Listener) : Event → Option Listener
  | .arrive => s.arrive
  | .proceed => s.proceed

/-- What is after some events. -/
def run (s : Listener) : List Event → Option Listener
  | [] => some s
  | e :: es => (s.next e).bind fun s => s.run es

/-- What a call returns when so many of the lines were asked for before. -/
def Call.answer (lines : List Bytes) (n : Nat) : Call → Answer
  | .readLine => .line lines[n]?
  | .pending => .pending (n < lines.length)

/-- How many of some calls ask for a line. -/
def countLines (calls : List Call) : Nat := calls.count .readLine

/-- What the calls return, one after the other. -/
def answer? (lines : List Bytes) (calls : List Call) (i : Nat) : Option Answer :=
  calls[i]?.map (Call.answer lines (countLines (calls.take i)))

/-! ## The invariant -/

/-- What holds on the way. -/
structure Inv (stream : Bytes) (calls : List Call) (s : Listener) : Prop where
  /-- Of the stream, some bytes have arrived; those that were read are the lines asked for. -/
  reading : ∃ arrived before, stream = arrived ++ s.coming.flatten ∧
    Collector.Stream arrived before s.reader s.pipe ∧
    lines before = (lines stream).take (countLines (calls.take s.answered.length))
  asked : s.asked = calls.drop s.answered.length
  answered : ∀ i < s.answered.length, s.answered[i]? = answer? (lines stream) calls i
  /-- A line is only under way while one is asked for. -/
  idle : s.asked.head? ≠ some .readLine → s.reader.line = []
  closed : s.pipe.writable = false → s.coming = []
  readable : s.pipe.readable = true

variable {stream : Bytes} {calls : List Call} {s t : Listener}

theorem inv_start (pieces : List Bytes) (calls : List Call) :
    (start pieces calls).Inv pieces.flatten calls where
  reading :=
    ⟨[], [], rfl, ⟨rfl, List.not_mem_nil, .inl terminated_nil⟩, by simp [start, countLines]⟩
  asked := rfl
  answered := fun i hi => absurd hi (Nat.not_lt_zero i)
  idle := fun _ => rfl
  closed := fun h => by cases h
  readable := rfl

theorem inv_arrive (hinv : s.Inv stream calls) (h : s.arrive = some t) : t.Inv stream calls := by
  obtain ⟨arrived, before, hstream, hs, hbefore⟩ := hinv.reading
  unfold arrive at h
  cases hc : s.coming with
  | nil =>
    simp only [hc] at h
    split_ifs at h with hw
    cases h
    have hs' := hs.grow (Collector.grows_close s.pipe)
    rw [List.append_nil] at hs'
    exact {
      reading := ⟨arrived, before, hc ▸ hstream, hs', hbefore⟩
      asked := hinv.asked
      answered := hinv.answered
      idle := hinv.idle
      closed := fun _ => rfl
      readable := hinv.readable }
  | cons piece coming =>
    simp only [hc, Option.some.injEq] at h
    subst h
    have hw : s.pipe.writable = true := by
      by_contra hn
      rw [hinv.closed (by simpa using hn)] at hc
      cases hc
    refine {
      reading := ⟨arrived ++ piece, before, ?_,
        hs.grow (Collector.grows_write hw hinv.readable piece), hbefore⟩
      asked := hinv.asked
      answered := hinv.answered
      idle := hinv.idle
      closed := fun hn => ?_
      readable := hinv.readable }
    · rw [hstream, hc, List.flatten_cons, List.append_assoc]
    · exact absurd (hw.symm.trans hn) (by simp)

/-! ## Steps of a call -/

/-- What a call returns at the end of the input. -/
def Call.atEnd : Call → Answer
  | .readLine => .line none
  | .pending => .pending false

/-- What a step of the call under way comes to. -/
inductive Goes (s : Listener) : Listener → Prop
  /-- A line and its line feed were read. -/
  | line {rest : List Call} {l : Bytes} {reader : LineReader} {bytes : Array UInt8}
      (hask : s.asked = .readLine :: rest) (hline : reader.line = []) (hl : lf ∉ l)
      (hpre : s.reader.line <+: l)
      (hu : s.reader.unread s.pipe = l ++ lf :: reader.unread { s.pipe with bytes }) :
      Goes s (s.reply (.line (some l)) reader { s.pipe with bytes })
  /-- A last line without line feed was read. -/
  | rest {rest : List Call} {reader : LineReader} (hask : s.asked = .readLine :: rest)
      (hline : reader.line = []) (hne : s.reader.line ≠ [])
      (hu : s.reader.unread s.pipe = s.reader.line) (hu' : reader.unread s.pipe = [])
      (hw : s.pipe.writable = false) :
      Goes s (s.reply (.line (some s.reader.line)) reader s.pipe)
  /-- A part of a line was read. -/
  | part {rest : List Call} {reader : LineReader} {bytes : Array UInt8}
      (hask : s.asked = .readLine :: rest) (hl : lf ∉ reader.line)
      (hlt : s.reader.line.length < reader.line.length)
      (hu : s.reader.unread s.pipe = reader.unread { s.pipe with bytes }) :
      Goes s { s with reader, pipe := { s.pipe with bytes } }
  /-- A look found something. -/
  | more {rest : List Call} {buffer : Bytes} {bytes : Array UInt8}
      (hask : s.asked = .pending :: rest) (hne : buffer ≠ [])
      (he : s.reader.buffer ++ s.pipe.content = buffer ++ bytes.toList) :
      Goes s (s.reply (.pending true) { s.reader with buffer } { s.pipe with bytes })
  /-- The input is at its end. -/
  | ended {call : Call} {rest : List Call} (hask : s.asked = call :: rest)
      (hline : call = .readLine → s.reader.line = []) (hb : s.reader.buffer = [])
      (hc : s.pipe.content = []) (hw : s.pipe.writable = false) :
      Goes s (s.reply call.atEnd s.reader s.pipe)

theorem goes_of_proceed (hl : lf ∉ s.reader.line) (h : s.proceed = some t) : s.Goes t := by
  unfold proceed at h
  cases hask : s.asked with
  | nil =>
    simp only [hask] at h
    cases h
  | cons call rest =>
    cases call with
    | readLine =>
      simp only [hask] at h
      rcases LineReader.readLine_cases hl s.pipe with ⟨l, r, bytes, hr, hrl, hl, hpre, hu⟩ |
        ⟨r, hr, hrl, hne, hu, hu', hw⟩ | ⟨r, bytes, hr, hrl, hlt, hu⟩ | ⟨hr, hu, hw⟩ |
        ⟨hr, -⟩ <;> simp only [hr] at h <;> cases h
      · exact .line hask hrl hl hpre hu
      · exact .rest hask hrl hne hu hu' hw
      · rw [← hask]
        exact .part hask hrl hlt hu
      · obtain ⟨hlb, hc⟩ := List.append_eq_nil_iff.mp hu
        obtain ⟨hline, hb⟩ := List.append_eq_nil_iff.mp hlb
        exact .ended hask (fun _ => hline) hb hc hw
    | pending =>
      simp only [hask] at h
      rcases LineReader.fill_cases s.reader s.pipe with ⟨buffer, bytes, hf, hne, he⟩ |
        ⟨hf, hb, hc, hw⟩ | ⟨hf, -⟩ <;> simp only [hf] at h <;> cases h
      · exact .more hask hne he
      · exact .ended hask (fun h => by cases h) hb hc hw

/-! ## Answers -/

theorem countLines_take_succ {n : Nat} {call : Call} (h : calls[n]? = some call) :
    countLines (calls.take (n + 1)) =
      countLines (calls.take n) + if call = .readLine then 1 else 0 := by
  rw [List.take_add_one, h, countLines, List.count_append]
  simp [countLines, List.count_singleton]

theorem Call.answer_of_le {lines : List Bytes} {n : Nat} (h : lines.length ≤ n) (call : Call) :
    call.answer lines n = call.atEnd := by
  cases call with
  | readLine => rw [answer, List.getElem?_eq_none h, atEnd]
  | pending => rw [answer, decide_eq_false (Nat.not_lt.mpr h), atEnd]

theorem getElem?_of_take_append {α : Type} {l : List α} {n : Nat} {x : α}
    (h : l.take n ++ [x] <+: l) : l[n]? = some x ∧ l.take (n + 1) = l.take n ++ [x] := by
  have hlen := h.length_le
  rw [List.length_append, List.length_take, List.length_singleton] at hlen
  have hn : (l.take n).length = n := List.length_take_of_le (by omega)
  have hx : l[n]? = some x := by
    obtain ⟨rest, hrest⟩ := h
    rw [← hrest, List.append_assoc, List.getElem?_append_right (Nat.le_of_eq hn), hn,
      Nat.sub_self]
    rfl
  exact ⟨hx, by rw [List.take_add_one, hx]; rfl⟩

theorem Inv.call (hinv : s.Inv stream calls) {call : Call} {rest : List Call}
    (hask : s.asked = call :: rest) : calls[s.answered.length]? = some call := by
  rw [← List.head?_drop, ← hinv.asked, hask]
  rfl

section

variable {rest : List Call} {arrived before : Bytes} {reader : LineReader} {pipe : Pipe}

theorem Inv.reply (hinv : s.Inv stream calls) {call : Call} (hask : s.asked = call :: rest)
    (hstream : stream = arrived ++ s.coming.flatten)
    (hs : Collector.Stream arrived before reader pipe) (hline : reader.line = [])
    (hw : pipe.writable = s.pipe.writable) (hr : pipe.readable = s.pipe.readable)
    (hbefore : lines before =
      (lines stream).take (countLines (calls.take (s.answered.length + 1)))) :
    (s.reply (call.answer (lines stream) (countLines (calls.take s.answered.length)))
      reader pipe).Inv stream calls := by
  have hdrop : calls.drop s.answered.length = call :: rest := hinv.asked.symm.trans hask
  have hlength (answer : Answer) : (s.answered ++ [answer]).length = s.answered.length + 1 :=
    List.length_append
  refine {
    reading := ⟨arrived, before, hstream, hs, ?_⟩
    asked := ?_
    answered := fun i hi => ?_
    idle := fun _ => hline
    closed := fun h => hinv.closed (hw ▸ h)
    readable := hr.trans hinv.readable }
  · rw [Listener.reply, hlength]
    exact hbefore
  · rw [Listener.reply, hlength, hask, ← List.tail_drop, hdrop]
  · rw [Listener.reply, hlength] at hi
    rcases Nat.lt_succ_iff_lt_or_eq.mp hi with hi | rfl
    · exact (List.getElem?_append_left hi).trans (hinv.answered i hi)
    · exact List.getElem?_concat_length.trans (by rw [answer?, hinv.call hask]; rfl)

theorem Inv.flatten_coming (hinv : s.Inv stream calls) (hw : s.pipe.writable = false) :
    s.coming.flatten = [] := by
  rw [hinv.closed hw]
  rfl

theorem Inv.reply_line (hinv : s.Inv stream calls) (hask : s.asked = .readLine :: rest)
    {before' l : Bytes} (hstream : stream = arrived ++ s.coming.flatten)
    (hs : Collector.Stream arrived before' reader pipe) (hline : reader.line = [])
    (hw : pipe.writable = s.pipe.writable) (hr : pipe.readable = s.pipe.readable)
    (hbefore : lines before = (lines stream).take (countLines (calls.take s.answered.length)))
    (hlines : lines before' = lines before ++ [l]) :
    (s.reply (.line (some l)) reader pipe).Inv stream calls := by
  have hcount := countLines_take_succ (hinv.call hask)
  rw [if_pos rfl] at hcount
  have hprefix : lines before' <+: lines stream := by
    rw [hstream]
    exact hs.lines_prefix fun h => hinv.flatten_coming (hw ▸ h)
  rw [hlines, hbefore] at hprefix
  obtain ⟨hget, htake⟩ := getElem?_of_take_append hprefix
  rw [← hget]
  refine hinv.reply hask hstream hs hline hw hr ?_
  rw [hlines, hbefore, hcount, htake]

end

theorem Inv.reply_atEnd (hinv : s.Inv stream calls) {call : Call} {rest : List Call}
    (hask : s.asked = call :: rest) (hline : s.reader.line = [])
    (hend : Collector.AtEnd s.reader s.pipe) :
    (s.reply call.atEnd s.reader s.pipe).Inv stream calls := by
  obtain ⟨arrived, before, hstream, hs, hbefore⟩ := hinv.reading
  have hall : lines before = lines stream := by
    rw [hstream, hinv.flatten_coming hend.1, List.append_nil, hs.of_atEnd hend]
  have hle : (lines stream).length ≤ countLines (calls.take s.answered.length) := by
    rw [← List.take_eq_self_iff, ← hbefore, hall]
  have hle' : (lines stream).length ≤ countLines (calls.take (s.answered.length + 1)) := by
    rw [countLines_take_succ (hinv.call hask)]
    exact Nat.le_add_right_of_le hle
  rw [← Call.answer_of_le hle call]
  refine hinv.reply hask hstream hs hline rfl rfl ?_
  rw [hall, List.take_of_length_le hle']

theorem inv_proceed (hinv : s.Inv stream calls) (h : s.proceed = some t) :
    t.Inv stream calls := by
  obtain ⟨arrived, before, hstream, hs, hbefore⟩ := hinv.reading
  cases goes_of_proceed hs.line h with
  | line hask hline hl _ hu =>
    obtain ⟨hs', hlines⟩ := hs.line_read hl hline hu
    exact hinv.reply_line hask hstream hs' hline rfl rfl hbefore hlines
  | rest hask hline hne hu hu' hw =>
    obtain ⟨hs', hlines⟩ := hs.rest_read hne hline hu hu' hw
    exact hinv.reply_line hask hstream hs' hline rfl rfl hbefore hlines
  | part hask hl _ hu =>
    exact {
      reading := ⟨arrived, before, hstream, hs.moved hl hu, hbefore⟩
      asked := hinv.asked
      answered := hinv.answered
      idle := fun hn => by simp [hask] at hn
      closed := hinv.closed
      readable := hinv.readable }
  | @more rest buffer bytes hask hne he =>
    have hs' : Collector.Stream arrived before { s.reader with buffer } { s.pipe with bytes } :=
      hs.moved hs.line (LineReader.unread_of_buffer rfl he)
    have hlt : (lines before).length < (lines stream).length := by
      rw [hstream]
      refine hs'.length_lt ?_ _
      rw [LineReader.unread, List.append_assoc]
      exact List.append_ne_nil_of_right_ne_nil _ (List.append_ne_nil_of_left_ne_nil hne _)
    have hmore : decide (countLines (calls.take s.answered.length) < (lines stream).length) =
        true := by
      rw [hbefore, List.length_take] at hlt
      exact decide_eq_true (by omega)
    rw [← hmore]
    refine hinv.reply hask hstream hs' (hinv.idle (by simp [hask])) rfl rfl ?_
    rw [hbefore, countLines_take_succ (hinv.call hask)]
    rfl
  | @ended call rest hask hline hb hc hw =>
    have hrl : s.reader.line = [] := by
      cases call with
      | readLine => exact hline rfl
      | pending => exact hinv.idle (by simp [hask])
    exact hinv.reply_atEnd hask hrl ⟨hw, by rw [LineReader.unread, hrl, hb, hc]; rfl⟩

theorem next_inv {e : Event} (hinv : s.Inv stream calls) (h : s.next e = some t) :
    t.Inv stream calls := by
  cases e with
  | arrive => exact inv_arrive hinv h
  | proceed => exact inv_proceed hinv h

theorem run_cons {e : Event} {es : List Event} (h : s.run (e :: es) = some t) :
    ∃ u, s.next e = some u ∧ u.run es = some t := Option.bind_eq_some_iff.mp h

theorem run_inv {es : List Event} (hinv : s.Inv stream calls) (h : s.run es = some t) :
    t.Inv stream calls := by
  induction es generalizing s with
  | nil => exact Option.some.inj h ▸ hinv
  | cons e es ih =>
    obtain ⟨u, hu, ht⟩ := run_cons h
    exact ih (next_inv hinv hu) ht

/-! ## Every call returns -/

/-- What is left to do: calls to answer, bytes to move, pieces to arrive, and the end of the input
to be found. -/
def work (s : Listener) : Nat :=
  s.asked.length + (s.reader.buffer.length + s.pipe.content.length + s.coming.flatten.length) +
    s.coming.length + if s.pipe.writable then 1 else 0

theorem arrive_work (h : s.arrive = some t) : t.work < s.work := by
  unfold arrive at h
  cases hc : s.coming with
  | nil =>
    simp only [hc] at h
    split_ifs at h with hw
    cases h
    simp [work, hc, hw, Pipe.closeWriter, Pipe.content]
  | cons piece coming =>
    simp only [hc, Option.some.injEq] at h
    subst h
    simp only [work, hc, Pipe.content_append, List.length_append, List.flatten_cons,
      List.length_cons]
    omega

theorem proceed_work (hl : lf ∉ s.reader.line) (h : s.proceed = some t) : t.work < s.work := by
  have hall := s.reader.length_unread s.pipe
  cases goes_of_proceed hl h with
  | @line rest l r bytes hask _ _ hpre hu =>
    have hrest := r.length_unread { s.pipe with bytes }
    have hline := hpre.length_le
    have hlen := congrArg List.length hu
    rw [List.length_append, List.length_cons] at hlen
    dsimp only at hrest hlen
    simp only [work, reply, hask, List.tail_cons, List.length_cons]
    omega
  | @rest rest r hask _ _ _ hu' _ =>
    have hrest := r.length_unread s.pipe
    rw [hu', List.length_nil] at hrest
    simp only [work, reply, hask, List.tail_cons, List.length_cons]
    omega
  | @part rest r bytes hask _ hlt hu =>
    have hrest := r.length_unread { s.pipe with bytes }
    have hlen := congrArg List.length hu
    dsimp only at hrest hlen
    simp only [work]
    omega
  | more hask _ he =>
    have hlen := congrArg List.length he
    rw [List.length_append, List.length_append] at hlen
    simp only [work, reply, hask, List.tail_cons, List.length_cons, Pipe.content] at hlen ⊢
    omega
  | ended hask =>
    simp only [work, reply, hask, List.tail_cons, List.length_cons]
    omega

theorem next_work {e : Event} (hinv : s.Inv stream calls) (h : s.next e = some t) :
    t.work < s.work := by
  cases e with
  | arrive => exact arrive_work h
  | proceed =>
    obtain ⟨arrived, before, -, hs, -⟩ := hinv.reading
    exact proceed_work hs.line h

theorem run_work {es : List Event} (hinv : s.Inv stream calls) (h : s.run es = some t) :
    es.length + t.work ≤ s.work := by
  induction es generalizing s with
  | nil =>
    cases h
    exact Nat.le_of_eq (Nat.zero_add _)
  | cons e es ih =>
    obtain ⟨u, hu, ht⟩ := run_cons h
    have hlt := next_work hinv hu
    have hle := ih (next_inv hinv hu) ht
    rw [List.length_cons]
    omega

/-- A call that waits for input gets some: a piece is on its way, or the input ends. -/
theorem exists_next (hinv : s.Inv stream calls) (h : s.asked ≠ []) : ∃ e t, s.next e = some t := by
  obtain ⟨arrived, before, -, hs, -⟩ := hinv.reading
  have harrive (hw : s.pipe.writable = true) : ∃ e t, s.next e = some t := by
    refine ⟨.arrive, ?_⟩
    unfold next arrive
    cases s.coming with
    | nil => exact ⟨_, if_pos hw⟩
    | cons piece coming => exact ⟨_, rfl⟩
  obtain ⟨call, rest, hask⟩ := List.exists_cons_of_ne_nil h
  cases call with
  | readLine =>
    rcases LineReader.readLine_cases hs.line s.pipe with ⟨l, r, bytes, hr, -⟩ | ⟨r, hr, -⟩ |
      ⟨r, bytes, hr, -⟩ | ⟨hr, -⟩ | ⟨-, -, -, hw⟩
    on_goal 5 => exact harrive hw
    all_goals exact ⟨.proceed, _, by simp only [next, proceed, hask, hr]; rfl⟩
  | pending =>
    rcases LineReader.fill_cases s.reader s.pipe with ⟨buffer, bytes, hf, -⟩ | ⟨hf, -⟩ |
      ⟨-, -, -, hw⟩
    on_goal 3 => exact harrive hw
    all_goals exact ⟨.proceed, _, by simp only [next, proceed, hask, hf]; rfl⟩

/-! ## What a look does -/

theorem unread_of_pending (hl : lf ∉ s.reader.line) (hask : s.asked.head? = some .pending)
    (h : s.proceed = some t) :
    t.reader.unread t.pipe = s.reader.unread s.pipe ∧ t.coming = s.coming := by
  cases goes_of_proceed hl h with
  | line hask' | rest hask' | part hask' =>
    rw [hask', List.head?_cons] at hask
    cases hask
  | @more rest buffer bytes _ _ he =>
    have hu : s.reader.unread s.pipe =
        LineReader.unread { s.reader with buffer } { s.pipe with bytes } :=
      LineReader.unread_of_buffer rfl he
    exact ⟨hu.symm, rfl⟩
  | ended => exact ⟨rfl, rfl⟩

/-- **The lines are those of the stream, however it arrives and whatever is asked in between.** The
input of a reader arrives in any pieces and then ends, and lines and looks for more are asked for in
any order; the calls take their steps whenever they can, between the arrivals. The lines that are
read are those of the whole stream, one after the other and with nothing after the last; they hold
no line feed, and with their line feeds they are the stream again, but for the line feed that may be
missing at its end. A look tells whether there is a next line, takes nothing of the input, and has
no part in what is returned later. What was not read is what is behind the lines that were asked
for. While a call is not answered something can happen, and only so much happens at all. -/
theorem lines_as_sent {pieces : List Bytes} {events : List Event}
    (h : (start pieces calls).run events = some s) :
    let stream := pieces.flatten
    (∀ l ∈ lines stream, lf ∉ l) ∧
      (lines stream).flatMap (· ++ [lf]) =
        (if Terminated stream then stream else stream ++ [lf]) ∧
      s.asked = calls.drop s.answered.length ∧
      (∀ i < s.answered.length, s.answered[i]? = answer? (lines stream) calls i) ∧
      (∃ before, stream = before ++ s.reader.unread s.pipe ++ s.coming.flatten ∧
        lines before = (lines stream).take (countLines (calls.take s.answered.length))) ∧
      (∀ t, s.asked.head? = some .pending → s.proceed = some t →
        t.reader.unread t.pipe = s.reader.unread s.pipe ∧ t.coming = s.coming) ∧
      (s.asked ≠ [] → ∃ e t, s.next e = some t) ∧
      events.length ≤ calls.length + stream.length + pieces.length + 1 := by
  intro stream
  have hstart : (start pieces calls).Inv stream calls := inv_start pieces calls
  have hinv : s.Inv stream calls := run_inv hstart h
  obtain ⟨arrived, before, hstream, hs, hbefore⟩ := hinv.reading
  refine ⟨fun l => not_mem_of_mem_lines, flatMap_lines stream, hinv.asked, hinv.answered,
    ⟨before, ?_, hbefore⟩, fun t => unread_of_pending hs.line, exists_next hinv, ?_⟩
  · rw [hstream, hs.bytes]
  · have hwork : (start pieces calls).work =
        calls.length + stream.length + pieces.length + 1 := by
      simp [work, start, Pipe.content, stream]
    exact hwork ▸ Nat.le_of_add_right_le (run_work hstart h)

/-- A line that comes in two pieces and a piece with two line feeds, an empty line, a carriage
return and a last line without line feed; there are looks between the lines and at both ends. -/
theorem lines_as_sent_in_pieces :
    let pieces : List Bytes := [[97], [98, lf, 99], [13, lf, lf], [100]]
    let calls : List Call := [.pending, .readLine, .pending, .readLine, .readLine, .pending,
      .readLine, .pending, .readLine, .readLine]
    let events : List Event := [.arrive, .proceed, .proceed, .arrive, .proceed, .proceed, .proceed,
      .arrive, .proceed, .proceed, .arrive, .proceed, .proceed, .arrive, .proceed, .proceed,
      .proceed, .proceed]
    ∃ s, (start pieces calls).run events = some s ∧ s.asked = [] ∧
      s.answered = [.pending true, .line (some [97, 98]), .pending true, .line (some [99, 13]),
        .line (some []), .pending true, .line (some [100]), .pending false, .line none,
        .line none] := by
  intro pieces calls events
  have hrun : ((start pieces calls).run events).map (fun s => s.answered.length) = some 10 := by
    decide +kernel
  obtain ⟨s, hs, hlength⟩ := Option.map_eq_some_iff.mp hrun
  obtain ⟨-, -, hasked, hanswered, -⟩ := lines_as_sent hs
  have hlines : lines pieces.flatten = [[97, 98], [99, 13], [], [100]] := by
    rw [show pieces.flatten = [97, 98] ++ lf :: ([99, 13] ++ lf :: ([] ++ lf :: [100])) from rfl,
      lines_line (by decide), lines_line (by decide), lines_line (by decide),
      lines_rest (by decide) (by decide)]
  rw [hlines, hlength] at hanswered
  refine ⟨s, hs, by rw [hasked, hlength]; rfl, List.ext_getElem? fun i => ?_⟩
  by_cases hi : i < 10
  · rw [hanswered i hi]
    revert i
    decide +kernel
  · rw [List.getElem?_eq_none (by omega), List.getElem?_eq_none (by simpa using hi)]

end Listener

end Coprocess
