import Coprocess.Proofs.Collector.Collecting

/-!
# From one end of a pipe to the other

One owner writes, flushes and closes; the other reads lines and looks whether there are more. A call
takes steps, and the steps of the two are taken in any order.

* `Conduit`: the two ends with the pipe, and what went through;
* `Conduit.Event`, `Conduit.next`, `Conduit.run`: a call that begins or a step of one, and any
  number of them;
* `LineReader.readLine_takes`: what a step of reading a line takes out of the buffer;
* `Conduit.Inv`, `Conduit.next_inv`, `Conduit.run_inv`: what holds after any events;
* `Conduit.run_to_end`: a pipe that is closed can be read to its end;
* **`Conduit.nothing_lost`**: what was read, what is under way and what is held back are together
  what was written, in this order, and the lines that are read are those that were written.
-/

namespace Coprocess

/-! ## What is read out of a buffer -/

namespace LineReader

/-- The bytes that a step of reading a line takes out of the buffer once this is filled: those up to
and including the first line feed. -/
def takes (r : LineReader) (p : Pipe) : Bytes :=
  match r.fill p with
  | .known _ r _ => (cutLine r.buffer).1
  | .blocked => []

theorem readLine_takes (r : LineReader) (p : Pipe) :
    match r.readLine p with
    | .line _ r' p' => r.buffer ++ p.content = r.takes p ++ (r'.buffer ++ p'.content)
    | .partly r' p' => r.buffer ++ p.content = r.takes p ++ (r'.buffer ++ p'.content)
    | .ended _ _ => r.takes p = []
    | .blocked => True := by
  unfold readLine takes
  rcases fill_cases r p with ⟨buffer, bytes, hf, -, e⟩ | ⟨hf, hb, hc, -⟩ | ⟨hf, -⟩
  · simp only [hf, e]
    unfold cutLine
    have hcut : buffer.takeWhile (· ≠ lf) ++ buffer.dropWhile (· ≠ lf) = buffer :=
      List.takeWhile_append_dropWhile
    cases hd : buffer.dropWhile (· ≠ lf) with
    | nil => simp [Pipe.content]
    | cons b rest =>
      rw [hd] at hcut
      simp only [Pipe.content, ← List.append_assoc, List.append_cancel_right_eq]
      simpa using hcut.symm
  · simp only [hf]
    have htakes : (cutLine r.buffer).1 = [] := by rw [hb]; rfl
    by_cases hl : r.line.isEmpty = true
    · simp only [if_pos hl, htakes]
    · simp only [if_neg hl, htakes, List.nil_append]
  · simp only [hf]

theorem line_append_takes {r r' : LineReader} {p p' : Pipe} {l : Bytes}
    (ht : r.buffer ++ p.content = r.takes p ++ (r'.buffer ++ p'.content))
    (hu : r.unread p = l ++ (r'.buffer ++ p'.content)) : r.line ++ r.takes p = l := by
  rw [unread, List.append_assoc, ht, ← List.append_assoc] at hu
  exact List.append_cancel_right hu

end LineReader

/-! ## The two ends of a pipe -/

/-- What the owner of the write end can ask for. -/
inductive Conduit.Request
  | write (data : Bytes)
  /-- Writes a line and then a line feed. -/
  | writeLine (line : Bytes)
  | flush
  /-- Flushes, and gives up the writer. -/
  | close
  /-- Gives up the writer, which flushes once more before its end of the pipe is closed. -/
  | drop

/-- What remains to be done of a request after the call under way. -/
inductive Conduit.Plan
  | nothing
  | lineFeed
  /-- The writer is given up, which flushes it. -/
  | giveUp
  /-- The write end is closed. -/
  | hangUp
  deriving DecidableEq

/-- The two ends of a pipe, and what went through it. -/
structure Conduit where
  writer : Writer := {}
  plan : Conduit.Plan := .nothing
  pipe : Pipe := {}
  reader : LineReader := {}
  /-- The bytes that were put into the pipe. -/
  entered : Bytes := []
  /-- The bytes that reading lines took out of the reader. -/
  consumed : Bytes := []
  /-- The lines that were read. -/
  taken : List Bytes := []
  /-- Reading a line found that there is none. -/
  ended : Bool := false
  /-- A call of the writer has failed. -/
  failed : Bool := false

namespace Conduit

/-- The bytes that a request writes. -/
def Request.data : Request → Bytes
  | .write data => data
  | .writeLine line => line ++ [lf]
  | _ => []

/-- Nothing can be asked for after this request. -/
def Request.closes : Request → Bool
  | .close | .drop => true
  | _ => false

/-- The bytes that are written after the call under way. -/
def Plan.data : Plan → Bytes
  | .lineFeed => [lf]
  | _ => []

/-- The write end is about to be closed. -/
def Plan.Closing (plan : Plan) : Prop := plan = .giveUp ∨ plan = .hangUp

/-- A pipe that nobody has written to. -/
def start (capacity : Nat) : Conduit where
  pipe := { capacity }

/-- No request is under way. -/
def Resting (s : Conduit) : Prop := s.writer.isIdle = true ∧ s.plan = .nothing

instance (s : Conduit) : Decidable s.Resting :=
  inferInstanceAs (Decidable (_ ∧ _))

/-- The bytes that are written and not in the pipe yet. -/
def backlog (s : Conduit) : Bytes := s.writer.backlog ++ s.plan.data

/-- Begins a request. -/
def ask (s : Conduit) : Request → Conduit
  | .write data => { s with writer := s.writer.write data }
  | .writeLine line => { s with writer := s.writer.write line, plan := .lineFeed }
  | .flush => { s with writer := s.writer.flush }
  | .close => { s with writer := s.writer.flush, plan := .giveUp }
  | .drop => { s with writer := s.writer.flush, plan := .hangUp }

/-- Goes on with a request after one of its calls. -/
def proceed (s : Conduit) : Option Conduit :=
  match s.plan with
  | .nothing => none
  | .lineFeed => some { s with writer := s.writer.write [lf], plan := .nothing }
  | .giveUp => some { s with writer := s.writer.flush, plan := .hangUp }
  | .hangUp => some { s with pipe := s.pipe.closeWriter, plan := .nothing }

/-- Moves on the request that is under way. -/
def advance (s : Conduit) : Option Conduit :=
  if s.writer.isIdle then s.proceed
  else match s.writer.step s.pipe with
    | .moved writer pipe =>
      let part := pipe.content.drop s.pipe.content.length
      some { s with writer, pipe, entered := s.entered ++ part }
    | .blocked => none
    | .broken writer => some { s with writer, failed := true }

/-- Moves on the line that is being read. -/
def read (s : Conduit) : Option Conduit :=
  let consumed := s.consumed ++ s.reader.takes s.pipe
  match s.reader.readLine s.pipe with
  | .line line reader pipe => some { s with reader, pipe, consumed, taken := s.taken ++ [line] }
  | .partly reader pipe => some { s with reader, pipe, consumed }
  | .ended reader pipe => some { s with reader, pipe, consumed, ended := true }
  | .blocked => none

/-- Looks whether there is more to read. -/
def look (s : Conduit) : Option Conduit :=
  match s.reader.fill s.pipe with
  | .known _ reader pipe => some { s with reader, pipe }
  | .blocked => none

/-- What can happen at the ends of a pipe. -/
inductive Event
  /-- The owner of the write end asks for something. -/
  | ask (request : Request)
  /-- The request under way takes a step. -/
  | advance
  | read
  | look

/-- The bytes that are written by what an event begins. -/
def Event.data : Event → Bytes
  | .ask request => request.data
  | _ => []

/-- The event begins to close the write end. -/
def Event.closes : Event → Bool
  | .ask request => request.closes
  | _ => false

/-- All bytes that some events write. -/
def written (events : List Event) : Bytes := events.flatMap Event.data

/-- What is after an event, or `none` while it cannot happen. -/
def next (s : Conduit) : Event → Option Conduit
  | .ask request => if s.Resting ∧ s.pipe.writable = true then some (s.ask request) else none
  | .advance => s.advance
  | .read => s.read
  | .look => s.look

/-- What is after some events. -/
def run (s : Conduit) : List Event → Option Conduit
  | [] => some s
  | e :: es => (s.next e).bind fun s => s.run es

theorem run_cons {s s' : Conduit} {e : Event} {es : List Event} (h : s.run (e :: es) = some s') :
    ∃ t, s.next e = some t ∧ t.run es = some s' := Option.bind_eq_some_iff.mp h

/-! ## The invariant -/

/-- What holds after the events `past`. -/
structure Inv (past : List Event) (s : Conduit) : Prop where
  readable : s.pipe.readable = true
  failed : s.failed = false
  tidy : s.writer.Tidy
  /-- Bytes enter the pipe in the order in which they were written. -/
  entering : s.entered ++ s.backlog = written past
  /-- Nothing is held when the write end is closed. -/
  emptying : s.plan.Closing → s.writer.Emptying
  closed : s.pipe.writable = false → s.Resting ∧ s.backlog = []
  closing : (∃ e ∈ past, e.closes = true) → s.plan.Closing ∨ s.pipe.writable = false
  /-- The lines that were taken are those of what was read, but for the line under way. -/
  reading : ∃ before, Collector.Stream s.entered before s.reader s.pipe ∧
    s.taken = lines before ∧ s.consumed = before ++ s.reader.line
  ended : s.ended = true → Collector.AtEnd s.reader s.pipe

variable {past : List Event} {s s' : Conduit}

theorem written_concat (past : List Event) (e : Event) :
    written (past ++ [e]) = written past ++ e.data := by
  simp [written]

theorem closes_concat {e : Event} :
    (∃ e' ∈ past ++ [e], e'.closes = true) ↔ (∃ e' ∈ past, e'.closes = true) ∨ e.closes = true := by
  simp [or_and_right, exists_or]

theorem not_closing {plan : Plan} (h : plan = .nothing ∨ plan = .lineFeed) : ¬ plan.Closing := by
  rcases h with rfl | rfl <;> rintro (h | h) <;> cases h

theorem Inv.writable (hinv : s.Inv past) (h : ¬ s.Resting) : s.pipe.writable = true := by
  by_contra hw
  exact h (hinv.closed (by simpa using hw)).1

theorem inv_start (capacity : Nat) : Inv [] (start capacity) where
  readable := rfl
  failed := rfl
  tidy := Writer.tidy_of_idle rfl
  entering := rfl
  emptying := fun h => absurd h (not_closing (.inl rfl))
  closed := fun h => by cases h
  closing := by simp
  reading := ⟨[], ⟨rfl, by simp [start], .inl terminated_nil⟩, lines_nil.symm, rfl⟩
  ended := fun h => by cases h

theorem Inv.begins (hinv : s.Inv past) (hw : s.pipe.writable = true) {e : Event} {writer : Writer}
    {plan : Plan} (ht : writer.Tidy) (hb : writer.backlog ++ plan.data = s.backlog ++ e.data)
    (he : plan.Closing → writer.Emptying)
    (hc : s.plan.Closing ∨ e.closes = true → plan.Closing) :
    { s with writer, plan }.Inv (past ++ [e]) where
  readable := hinv.readable
  failed := hinv.failed
  tidy := ht
  entering := by
    rw [written_concat, ← hinv.entering, List.append_assoc, ← hb]
    rfl
  emptying := he
  closed := fun h => by
    rw [hw] at h
    cases h
  closing := fun h => by
    refine .inl (hc ?_)
    rcases closes_concat.mp h with h | h
    · rcases hinv.closing h with h | h
      · exact .inl h
      · rw [hw] at h
        cases h
    · exact .inr h
  reading := hinv.reading
  ended := hinv.ended

theorem backlog_of_resting (h : s.Resting) : s.backlog = s.writer.held.toList := by
  rw [backlog, Writer.backlog_of_idle (Writer.isIdle_iff.mp h.1), h.2]
  exact List.append_nil _

theorem inv_ask {request : Request} (hinv : s.Inv past) (hr : s.Resting)
    (hw : s.pipe.writable = true) : (s.ask request).Inv (past ++ [.ask request]) := by
  have hb : s.backlog = s.writer.held.toList := backlog_of_resting hr
  have hn : ¬ s.plan.Closing := not_closing (.inl hr.2)
  have hflush : s.writer.flush.backlog = s.backlog := by rw [Writer.backlog_flush, hb]
  have hempty : s.writer.flush.Emptying := Writer.emptying_flush _
  cases request with
  | write data =>
    refine hinv.begins hw (Writer.tidy_write _ _) ?_ (fun h => absurd h hn) ?_
    · rw [Writer.backlog_write, hb, hr.2]
      exact List.append_nil _
    · exact fun h => h.resolve_right Bool.false_ne_true
  | writeLine line =>
    refine hinv.begins hw (Writer.tidy_write _ _) ?_ ?_ ?_
    · rw [Writer.backlog_write, hb]
      exact List.append_assoc _ _ _
    · exact fun h => absurd h (not_closing (.inr rfl))
    · exact fun h => absurd (h.resolve_right Bool.false_ne_true) hn
  | flush =>
    refine hinv.begins hw hempty.tidy ?_ (fun _ => hempty) ?_
    · rw [hflush, hr.2]
      rfl
    · exact fun h => h.resolve_right Bool.false_ne_true
  | close =>
    refine hinv.begins hw hempty.tidy ?_ (fun _ => hempty) fun _ => .inl rfl
    rw [hflush]
    rfl
  | drop =>
    refine hinv.begins hw hempty.tidy ?_ (fun _ => hempty) fun _ => .inr rfl
    rw [hflush]
    rfl

theorem inv_proceed (hinv : s.Inv past) (hi : s.writer.isIdle = true)
    (h : s.proceed = some s') : s'.Inv (past ++ [.advance]) := by
  have hheld : s.writer.backlog = s.writer.held.toList :=
    Writer.backlog_of_idle (Writer.isIdle_iff.mp hi)
  have hw (hp : s.plan ≠ .nothing) : s.pipe.writable = true := hinv.writable fun hr => hp hr.2
  unfold proceed at h
  cases hp : s.plan with
  | nothing =>
    simp only [hp] at h
    cases h
  | lineFeed =>
    simp only [hp] at h
    cases h
    refine hinv.begins (hw (by simp [hp])) (Writer.tidy_write _ _) ?_ ?_ ?_
    · rw [Writer.backlog_write, backlog, hheld, hp]
      simp [Plan.data, Event.data]
    · exact fun h => absurd h (not_closing (.inl rfl))
    · exact fun h => absurd (h.resolve_right Bool.false_ne_true) (not_closing (.inr hp))
  | giveUp =>
    simp only [hp] at h
    cases h
    have hempty : s.writer.flush.Emptying := Writer.emptying_flush _
    refine hinv.begins (hw (by simp [hp])) hempty.tidy ?_ (fun _ => hempty) fun _ => .inr rfl
    rw [Writer.backlog_flush, backlog, hheld, hp]
    simp [Plan.data, Event.data]
  | hangUp =>
    simp only [hp] at h
    cases h
    -- The writer was flushed for this, so that nothing is held back now.
    have hg := Collector.grows_close s.pipe
    have hnone : s.writer.backlog = [] := (hinv.emptying (.inr hp)).backlog_of_idle hi
    have hb : s.backlog = [] := by rw [backlog, hnone, hp]; rfl
    obtain ⟨before, hs, ht, hc⟩ := hinv.reading
    exact {
      readable := hinv.readable
      failed := hinv.failed
      tidy := hinv.tidy
      entering := by
        rw [written_concat, ← hinv.entering, hb, backlog, hnone]
        simp [Plan.data, Event.data]
      emptying := fun h => absurd h (not_closing (.inl rfl))
      closed := fun _ => ⟨⟨hi, rfl⟩, by rw [backlog, hnone]; rfl⟩
      closing := fun _ => .inr rfl
      reading := ⟨before, by simpa using hs.grow hg, ht, hc⟩
      ended := fun he => hg.atEnd (hinv.ended he) }

theorem inv_advance (hinv : s.Inv past) (h : s.advance = some s') :
    s'.Inv (past ++ [.advance]) := by
  unfold advance at h
  split_ifs at h with hi
  · exact inv_proceed hinv hi h
  · have hw : s.pipe.writable = true := hinv.writable fun hr => hi hr.1
    rcases Writer.step_cases hinv.tidy s.pipe with
      ⟨writer, part, hs, ht, hb, he⟩ | ⟨hs, -⟩ | ⟨writer, hs, -, hr, -⟩
    · rw [hs] at h
      have hpart : (s.pipe.content ++ part).drop s.pipe.content.length = part :=
        List.drop_left
      simp only [Pipe.content_append, hpart, Option.some.injEq] at h
      subst h
      have hg := Collector.grows_write hw hinv.readable part
      obtain ⟨before, hstream, htaken, hc⟩ := hinv.reading
      exact {
        readable := hinv.readable
        failed := hinv.failed
        tidy := ht
        entering := by
          rw [written_concat, ← hinv.entering, backlog, backlog, hb]
          simp [Event.data]
        emptying := fun hp => he (hinv.emptying hp)
        closed := fun hc => by
          rw [hw] at hc
          cases hc
        closing := fun hp => hinv.closing (by simpa [closes_concat, Event.closes] using hp)
        reading := ⟨before, hstream.grow hg, htaken, hc⟩
        ended := fun he => hg.atEnd (hinv.ended he) }
    · rw [hs] at h
      cases h
    · rw [hinv.readable] at hr
      cases hr

theorem Inv.moves (hinv : s.Inv past) {e : Event} {reader : LineReader} {bytes : Array UInt8}
    {consumed : Bytes} {taken : List Bytes} {ended : Bool} (hd : e.data = [])
    (hc : e.closes = false)
    (hreading : ∃ before, Collector.Stream s.entered before reader { s.pipe with bytes } ∧
      taken = lines before ∧ consumed = before ++ reader.line)
    (hended : ended = true → Collector.AtEnd reader { s.pipe with bytes }) :
    { s with reader, pipe := { s.pipe with bytes }, consumed, taken, ended }.Inv
      (past ++ [e]) where
  readable := hinv.readable
  failed := hinv.failed
  tidy := hinv.tidy
  entering := by
    rw [written_concat, ← hinv.entering, hd, List.append_nil]
    rfl
  emptying := hinv.emptying
  closed := hinv.closed
  closing := fun hp => hinv.closing (by simpa [closes_concat, hc] using hp)
  reading := hreading
  ended := hended

theorem inv_read (hinv : s.Inv past) (h : s.read = some s') : s'.Inv (past ++ [.read]) := by
  obtain ⟨before, hs, ht, hc⟩ := hinv.reading
  have htakes := s.reader.readLine_takes s.pipe
  unfold read at h
  rcases LineReader.readLine_cases hs.line s.pipe with ⟨l, r, bytes, hr, hrl, hl, -, hu⟩ |
    ⟨r, hr, hrl, hne, hu, hu', hw⟩ | ⟨r, bytes, hr, hrl, -, hu⟩ | ⟨hr, hu, hw⟩ | ⟨hr, -⟩ <;>
    simp only [hr] at h htakes <;> cases h
  · obtain ⟨hstream, hlines⟩ := hs.line_read hl hrl hu
    have htook : s.reader.line ++ s.reader.takes s.pipe = l ++ [lf] := by
      refine LineReader.line_append_takes htakes ?_
      rw [hu, LineReader.unread, hrl]
      simp
    refine hinv.moves rfl rfl ⟨_, hstream, by rw [ht, hlines], ?_⟩ fun he => ?_
    · rw [hc, List.append_assoc, htook, hrl, List.append_nil]
    · have hnone := (hinv.ended he).2
      simp [hu] at hnone
  · obtain ⟨hstream, hlines⟩ := hs.rest_read hne hrl hu hu' hw
    have hrest : r.buffer ++ s.pipe.content = [] := by
      simpa [LineReader.unread, hrl] using hu'
    have htook : s.reader.line ++ s.reader.takes s.pipe = s.reader.line :=
      LineReader.line_append_takes htakes (by rw [hu, hrest, List.append_nil])
    refine hinv.moves rfl rfl ⟨_, hstream, by rw [ht, hlines], ?_⟩ fun he => ?_
    · rw [hc, List.append_assoc, htook, hrl, List.append_nil]
    · exact absurd ((hinv.ended he).2.symm.trans hu).symm hne
  · have htook : s.reader.line ++ s.reader.takes s.pipe = r.line :=
      LineReader.line_append_takes htakes (by rw [hu, LineReader.unread, List.append_assoc])
    refine hinv.moves rfl rfl ⟨_, hs.moved hrl hu, ht, ?_⟩ fun he => ?_
    · rw [hc, List.append_assoc, htook]
    · exact ⟨(hinv.ended he).1, hu ▸ (hinv.ended he).2⟩
  · refine hinv.moves rfl rfl ⟨before, hs, ht, ?_⟩ fun _ => ⟨hw, hu⟩
    rw [hc, htakes, List.append_nil]

theorem inv_look (hinv : s.Inv past) (h : s.look = some s') : s'.Inv (past ++ [.look]) := by
  obtain ⟨before, hs, ht, hc⟩ := hinv.reading
  unfold look at h
  rcases LineReader.fill_cases s.reader s.pipe with ⟨buffer, bytes, hf, -, he⟩ | ⟨hf, -⟩ |
    ⟨hf, -⟩ <;>
    simp only [hf] at h <;> cases h
  · have hu : s.reader.unread s.pipe =
        LineReader.unread { s.reader with buffer } { s.pipe with bytes } :=
      LineReader.unread_of_buffer rfl he
    exact hinv.moves rfl rfl ⟨before, hs.moved hs.line hu, ht, hc⟩ fun hended =>
      ⟨(hinv.ended hended).1, hu ▸ (hinv.ended hended).2⟩
  · exact hinv.moves rfl rfl ⟨before, hs, ht, hc⟩ hinv.ended

theorem next_inv {e : Event} (hinv : s.Inv past) (h : s.next e = some s') :
    s'.Inv (past ++ [e]) := by
  cases e with
  | ask request =>
    unfold next at h
    split_ifs at h with hr
    cases h
    exact inv_ask hinv hr.1 hr.2
  | advance => exact inv_advance hinv h
  | read => exact inv_read hinv h
  | look => exact inv_look hinv h

theorem run_inv {es : List Event} (hinv : s.Inv past) (h : s.run es = some s') :
    s'.Inv (past ++ es) := by
  induction es generalizing s past with
  | nil =>
    cases h
    simpa using hinv
  | cons e es ih =>
    obtain ⟨t, hn, ht⟩ := run_cons h
    simpa using ih (next_inv hinv hn) ht

/-! ## Reading to the end -/

/-- How much there is to read: the bytes that are not in the line under way yet count twice, since
they are moved there first. -/
def left (s : Conduit) : Nat :=
  (s.reader.unread s.pipe).length + (s.reader.buffer.length + s.pipe.content.length)

/-- Reading goes on when nothing more is written. -/
theorem Inv.read_goes_on (hinv : s.Inv past) (hw : s.pipe.writable = false) :
    ∃ t, s.read = some t ∧ t.pipe.writable = false ∧ (t.ended = true ∨ t.left < s.left) := by
  obtain ⟨before, hs, -, -⟩ := hinv.reading
  have hall := s.reader.length_unread s.pipe
  unfold read
  rcases LineReader.readLine_cases hs.line s.pipe with ⟨l, r, bytes, hr, hrl, -, hpre, hu⟩ |
    ⟨r, hr, hrl, hne, hu, hu', -⟩ | ⟨r, bytes, hr, -, hlt, hu⟩ | ⟨hr, -⟩ | ⟨-, -, -, hopen⟩
  · simp only [hr]
    refine ⟨_, rfl, hw, .inr ?_⟩
    have hrest := r.length_unread { s.pipe with bytes }
    dsimp only at hrest
    have hline := hpre.length_le
    have hlen := congrArg List.length hu
    rw [List.length_append, List.length_cons] at hlen
    simp only [left]
    omega
  · simp only [hr]
    refine ⟨_, rfl, hw, .inr ?_⟩
    have hrest := r.length_unread s.pipe
    have hpos := List.length_pos_iff.mpr hne
    have hlen := congrArg List.length hu
    have hlen' := congrArg List.length hu'
    rw [List.length_nil] at hlen'
    simp only [left]
    omega
  · simp only [hr]
    refine ⟨_, rfl, hw, .inr ?_⟩
    have hrest := r.length_unread { s.pipe with bytes }
    dsimp only at hrest
    have hlen := congrArg List.length hu
    simp only [left]
    omega
  · simp only [hr]
    exact ⟨_, rfl, hw, .inl rfl⟩
  · rw [hw] at hopen
    cases hopen

/-- A pipe that is closed can be read to its end. -/
theorem run_to_end (hinv : s.Inv past) (hw : s.pipe.writable = false) :
    ∃ n t, s.run (List.replicate n .read) = some t ∧ t.ended = true := by
  induction hm : s.left using Nat.strong_induction_on generalizing s past with
  | _ m ih =>
    obtain ⟨t, ht, htw, hend⟩ := hinv.read_goes_on hw
    have hstep (n : Nat) :
        s.run (List.replicate (n + 1) .read) = t.run (List.replicate n .read) := by
      rw [List.replicate_succ, run, next, ht]
      rfl
    rcases hend with hend | hlt
    · exact ⟨1, t, hstep 0, hend⟩
    · obtain ⟨n, u, hu, he⟩ := ih t.left (hm ▸ hlt) (inv_read hinv ht) htw rfl
      exact ⟨n + 1, u, by rw [hstep, hu], he⟩

theorem Inv.taken_of_ended (hinv : s.Inv past) (he : s.ended = true) :
    s.taken = lines (written past) := by
  obtain ⟨before, hs, ht, -⟩ := hinv.reading
  have hend := hinv.ended he
  rw [ht, ← hinv.entering, (hinv.closed hend.1).2, List.append_nil, hs.of_atEnd hend]

theorem written_reads (events : List Event) (n : Nat) :
    written (events ++ List.replicate n .read) = written events := by
  simp [written, Event.data]

/-- **Nothing is lost and nothing changes places.** The owner of one end writes, flushes and closes,
the owner of the other reads lines and looks for more, in any order. What was read, what the reader
holds, what is in the pipe and what the writer holds is all that was written, in this order, and
bytes enter the pipe in the order in which they were written. No call fails. What was read are the
lines that were taken and the one under way. Once the write end is closed, the reader comes to the
end, and has then read the lines of all that was written. -/
theorem nothing_lost {capacity : Nat} {events : List Event} {s : Conduit}
    (h : (start capacity).run events = some s) :
    s.consumed ++ s.reader.buffer ++ s.pipe.content ++ s.backlog = written events ∧
      (s.Resting → s.backlog = s.writer.held.toList) ∧
      s.entered ++ s.backlog = written events ∧ s.failed = false ∧
      (∃ before, s.consumed = before ++ s.reader.line ∧ s.taken = lines before) ∧
      (s.ended = true → s.taken = lines (written events)) ∧
      ((∃ e ∈ events, e.closes = true) → s.Resting →
        ∃ n t, s.run (List.replicate n .read) = some t ∧ t.ended = true ∧
          t.taken = lines (written events)) := by
  have hinv : s.Inv events := run_inv (inv_start capacity) h
  obtain ⟨before, hs, ht, hc⟩ := hinv.reading
  refine ⟨?_, backlog_of_resting, hinv.entering, hinv.failed, ⟨before, hc, ht⟩,
    hinv.taken_of_ended, ?_⟩
  · rw [← hinv.entering, hs.bytes, hc]
    simp [LineReader.unread]
  · intro hcloses hr
    have hw : s.pipe.writable = false :=
      (hinv.closing hcloses).resolve_left (not_closing (.inl hr.2))
    obtain ⟨n, t, hrun, he⟩ := run_to_end hinv hw
    refine ⟨n, t, hrun, he, ?_⟩
    have htaken := (run_inv hinv hrun).taken_of_ended he
    rwa [written_reads] at htaken

/-- Through a pipe for two bytes, with a line read in between and a last line without line feed:
before it is read, its bytes are in the reader and in the pipe. -/
theorem nothing_lost_narrow :
    let events : List Event := [.ask (.writeLine [97]), .advance, .ask .flush, .advance, .look,
      .read, .advance, .ask (.write [98, 99, 100]), .ask .close, .advance, .look, .advance,
      .advance, .advance, .advance, .advance]
    ∃ s, (start 2).run events = some s ∧ s.consumed = [97, lf] ∧ s.reader.buffer = [98, 99] ∧
      s.pipe.content = [100] ∧ written events = s.consumed ++ s.reader.buffer ++ s.pipe.content ∧
      ∃ n t, s.run (List.replicate n .read) = some t ∧ t.taken = [[97], [98, 99, 100]] := by
  intro events
  have hrun : ((start 2).run events).map (fun s =>
      (s.consumed, s.reader.buffer, s.pipe.content, decide s.Resting, s.writer.held)) =
        some ([97, lf], [98, 99], [100], true, #[]) := by
    decide +kernel
  obtain ⟨s, hs, he⟩ := Option.map_eq_some_iff.mp hrun
  simp only [Prod.mk.injEq, decide_eq_true_eq] at he
  obtain ⟨hconsumed, hbuffer, hcontent, hresting, hheld⟩ := he
  obtain ⟨hall, hbacklog, -, -, -, -, hend⟩ := nothing_lost hs
  rw [hbacklog hresting, hheld] at hall
  obtain ⟨n, t, ht, -, htaken⟩ := hend (by decide) hresting
  refine ⟨s, hs, hconsumed, hbuffer, hcontent, by simpa using hall.symm, n, t, ht, ?_⟩
  rw [htaken, show written events = [97] ++ lf :: [98, 99, 100] from rfl,
    lines_line (by decide), lines_rest (by decide) (by decide)]

end Conduit

end Coprocess
