import Coprocess.Pool.Intake
import Coprocess.Pool.Worker
import Coprocess.Proofs.Pipe.Transfer
import Coprocess.Proofs.Record.Division

/-!
# Records on their way to a child

Records go from an intake through a channel to a forwarder, and from it into a pipe.

* `Intake.Inv`, **`Intake.step_inv`**: the records that an intake has sent are the first ones of its
  supply, and all of them when it has returned;
* `Forwarder.Move`, `Forwarder.move_of_step`: what a step of a forwarder does;
* `Forwarder.Inv`, **`Forwarder.step_inv`**: the bytes that a forwarder has pushed out and those
  that it still holds are the records that it has taken, unless it fails.
-/

namespace Coprocess

/-! ## Channels -/

namespace Channel

variable {α : Type}

/-- Nothing waits, and nothing can be sent. -/
def Drained (c : Channel α) : Prop := c.waiting.toList = [] ∧ c.senders = 0

theorem send_cases (c : Channel α) (a : α) :
    c.send a = .accepted { c with waiting := c.waiting.push a } ∨ c.send a = .full ∨
      c.send a = .closed := by
  unfold send
  split_ifs
  · exact .inr (.inr rfl)
  · exact .inr (.inl rfl)
  · exact .inl rfl

theorem receive_cases (c : Channel α) :
    (∃ a waiting, c.waiting.toList = a :: waiting.toList ∧
        c.receive = .item a { c with waiting }) ∨
      (c.waiting.toList = [] ∧ c.receive = .empty) ∨ (c.Drained ∧ c.receive = .disconnected) := by
  unfold receive
  cases hp : c.waiting.pop? with
  | some aw =>
    obtain ⟨a, waiting⟩ := aw
    exact .inl ⟨a, waiting, Fifo.toList_of_pop? hp, rfl⟩
  | none =>
    have hn := (Fifo.pop?_eq_none_iff _).mp hp
    by_cases hs : c.senders = 0
    · exact .inr (.inr ⟨⟨hn, hs⟩, if_pos hs⟩)
    · exact .inr (.inl ⟨hn, if_neg hs⟩)

end Channel

/-! ## Intakes -/

namespace Intake

variable {f : Framing} {s : Bytes} {rs : List Bytes} {i i' : Intake} {c c' : Channel Bytes}

/-- What the records sent and those still to be read are together. -/
def Ahead (f : Framing) (s : Bytes) (rs : List Bytes) (i : Intake) : Prop :=
  match i.phase with
  | .reading => ∀ more, f.Divides i.reader.supply.bytes more → f.Divides s (rs ++ more)
  | .sending x => f.Whole x ∧
      ∀ more, f.Divides i.reader.supply.bytes more → f.Divides s (rs ++ x :: more)
  | .returned (.ok n) => n = rs.length ∧ f.Divides s rs
  | .returned (.error _) => True

/-- What holds of an intake that started with the bytes `s` and has sent the records `rs`. -/
structure Inv (f : Framing) (s : Bytes) (rs : List Bytes) (i : Intake) : Prop where
  framing : i.reader.framing = f
  count : i.sent = rs.length
  whole : ∀ r ∈ rs, f.Whole r
  ahead : i.Ahead f s rs

/-- What a step of an intake does to its channel. -/
structure Effect (i i' : Intake) (c c' : Channel Bytes) (sent : List Bytes) : Prop where
  waiting : c'.waiting.toList = c.waiting.toList ++ sent
  one : sent.length ≤ 1
  going : i.result? = none
  senders : c'.senders = if i'.result?.isSome then c.senders - 1 else c.senders

theorem inv_start (f : Framing) (supply : Supply) :
    Inv f supply.bytes [] { reader := { supply, framing := f } } :=
  ⟨rfl, rfl, fun _ hr => absurd hr List.not_mem_nil, fun _ h => h⟩

theorem going_of_step (h : i.step c = some (i', c')) : i.result? = none := by
  unfold step at h
  unfold result?
  split at h <;> rename_i hp <;> rw [hp]
  cases h

theorem inv_leave {result : Except Failure Nat} (h : i.Inv f s rs) (c : Channel Bytes)
    (hr : ∀ n, result = .ok n → n = rs.length ∧ f.Divides s rs) :
    (i.leave result c).1.Inv f s rs := by
  refine ⟨h.framing, h.count, h.whole, ?_⟩
  cases result with
  | ok n => exact hr n rfl
  | error e => trivial

theorem effect_leave {result : Except Failure Nat} (hi : i.result? = none) :
    Effect i (i.leave result c).1 c (i.leave result c).2 [] :=
  ⟨(List.append_nil _).symm, Nat.zero_le _, hi, rfl⟩

/-- What holds after a step of an intake, and what the step does. -/
def Goes (f : Framing) (s : Bytes) (rs : List Bytes) (i i' : Intake) (c c' : Channel Bytes) :
    Prop :=
  ∃ sent, i'.Inv f s (rs ++ sent) ∧ Effect i i' c c' sent

theorem Goes.leave {result : Except Failure Nat} (h : i.Inv f s rs) (hi : i.result? = none)
    (hr : ∀ n, result = .ok n → n = rs.length ∧ f.Divides s rs) :
    Goes f s rs i (i.leave result c).1 c (i.leave result c).2 := by
  refine ⟨[], ?_, effect_leave hi⟩
  rw [List.append_nil]
  exact inv_leave h c hr

theorem Goes.fail (e : Failure) (h : i.Inv f s rs) (hi : i.result? = none) :
    Goes f s rs i (i.leave (.error e) c).1 c (i.leave (.error e) c).2 :=
  .leave h hi fun n hn => by cases hn

theorem goes_reading (h : i.step c = some (i', c')) (hinv : i.Inv f s rs)
    (hp : i.phase = .reading) : Goes f s rs i i' c c' := by
  have hgoing := going_of_step h
  have hahead := hinv.ahead
  simp only [Ahead, hp] at hahead
  simp only [step, hp] at h
  obtain ⟨read, reader, hn⟩ : ∃ read reader, i.reader.next = (read, reader) := ⟨_, _, rfl⟩
  rw [hn] at h
  cases read with
  | record x =>
    cases h
    have hwhole := (RecordReader.next_record hn).1
    rw [hinv.framing] at hwhole
    refine ⟨[], ?_, (List.append_nil _).symm, Nat.zero_le _, hgoing, rfl⟩
    rw [List.append_nil]
    refine ⟨(RecordReader.next_eq hn).1.trans hinv.framing, hinv.count, hinv.whole, hwhole,
      fun more hmore => ?_⟩
    have hnext := RecordReader.next_divides hn (by rw [hinv.framing]; exact hmore)
    rw [hinv.framing] at hnext
    exact hahead _ hnext
  | ended =>
    cases h
    have hs := RecordReader.next_ended hn
    refine .leave hinv hgoing fun n hn => ?_
    cases hn
    rw [hs] at hahead
    exact ⟨hinv.count, by simpa using hahead [] (Framing.divides_nil f)⟩
  | failed e =>
    cases h
    exact .fail e hinv hgoing
  | overflow =>
    cases h
    exact .fail _ hinv hgoing

theorem goes_sending {x : Bytes} (h : i.step c = some (i', c')) (hinv : i.Inv f s rs)
    (hp : i.phase = .sending x) : Goes f s rs i i' c c' := by
  have hgoing := going_of_step h
  have hahead := hinv.ahead
  simp only [Ahead, hp] at hahead
  simp only [step, hp] at h
  rcases c.send_cases x with hs | hs | hs <;> simp only [hs] at h <;> cases h
  · refine ⟨[x], ⟨hinv.framing, ?_, fun r hr => ?_, fun more hmore => ?_⟩, Fifo.toList_push _ _,
      Nat.le_refl _, hgoing, rfl⟩
    · rw [List.length_append, hinv.count]
      rfl
    · rcases List.mem_append.mp hr with hr | hr
      · exact hinv.whole r hr
      · rw [List.mem_singleton.mp hr]
        exact hahead.1
    · rw [List.append_assoc]
      exact hahead.2 more hmore
  · exact .fail _ hinv hgoing

/-- **What an intake sends** are the first records of its supply. -/
theorem step_inv (h : i.step c = some (i', c')) (hinv : i.Inv f s rs) :
    ∃ sent, i'.Inv f s (rs ++ sent) ∧ Effect i i' c c' sent := by
  cases hp : i.phase with
  | reading => exact goes_reading h hinv hp
  | sending x => exact goes_sending h hinv hp
  | returned result =>
    simp only [step, hp] at h
    cases h

theorem Inv.of_ok (h : i.Inv f s rs) {n : Nat} (hr : i.result? = some (.ok n)) :
    n = rs.length ∧ f.Divides s rs := by
  have hahead := h.ahead
  unfold result? at hr
  unfold Ahead at hahead
  split at hr
  · rename_i result hp
    cases hr
    simpa only [hp] using hahead
  · cases hr

end Intake

/-! ## Forwarders -/

namespace Forwarder

variable {f f' : Forwarder} {c c' : Channel Bytes} {p p' : Pipe}

/-- A forwarder that goes away, or has gone, after a failure. -/
def Fails (f : Forwarder) : Prop :=
  ∃ e, f.phase = .abandoning e ∨ f.phase = .returned (.error e)

/-- A forwarder that closes its pipe, or has closed it, after the last record. -/
def Ends (f : Forwarder) : Prop := f.phase = .closing ∨ ∃ n, f.phase = .returned (.ok n)

/-- What a step of a forwarder does. -/
inductive Move : Forwarder → Channel Bytes → Pipe → Forwarder → Channel Bytes → Pipe → Prop
  | push {f : Forwarder} {c : Channel Bytes} {p p' : Pipe} {w : Writer}
      (hi : f.writer.isIdle = false) (hw : f.writer.step p = .moved w p') :
      Move f c p { f with writer := w } c p'
  | broken {f : Forwarder} {c : Channel Bytes} {p : Pipe} {w : Writer}
      (hi : f.writer.isIdle = false) (hw : f.writer.step p = .broken w) :
      Move f c p { f with writer := w.flush, phase := .abandoning (.io (.os .pipe)) } c p
  | leaveBroken {f : Forwarder} {c : Channel Bytes} {p : Pipe} {w : Writer} {e : Failure}
      (hi : f.writer.isIdle = false) (hw : f.writer.step p = .broken w)
      (hp : f.phase = .abandoning e) :
      Move f c p { f with writer := w, phase := .returned (.error e) } c.dropReceiver p.closeWriter
  | take {f : Forwarder} {c : Channel Bytes} {p : Pipe} {record : Bytes} {waiting : Fifo Bytes}
      (hi : f.writer.call = .idle) (hp : f.phase = .taking ∨ f.phase = .awaiting)
      (hw : c.waiting.toList = record :: waiting.toList) :
      Move f c p { f with phase := .counting, writer := f.writer.write record }
        { c with waiting } p
  | await {f : Forwarder} {c : Channel Bytes} {p : Pipe} (hi : f.writer.call = .idle)
      (hp : f.phase = .taking) (hw : c.waiting.toList = []) :
      Move f c p { f with phase := .awaiting, pending := 0, writer := f.writer.flush } c p
  | close {f : Forwarder} {c : Channel Bytes} {p : Pipe} (hi : f.writer.call = .idle)
      (hp : f.phase = .taking ∨ f.phase = .awaiting) (hd : c.Drained) :
      Move f c p { f with phase := .closing, writer := f.writer.flush } c p
  | count {f : Forwarder} {c : Channel Bytes} {p : Pipe} {pending : Nat} {w : Writer}
      (hi : f.writer.call = .idle) (hp : f.phase = .counting)
      (hw : f.pending + 1 < f.flushEvery ∧ pending = f.pending + 1 ∧ w = f.writer ∨
        f.flushEvery ≤ f.pending + 1 ∧ pending = 0 ∧ w = f.writer.flush) :
      Move f c p { f with phase := .taking, fed := f.fed + 1, pending, writer := w } c p
  | leave {f : Forwarder} {c : Channel Bytes} {p : Pipe} (hi : f.writer.call = .idle)
      (hp : f.phase = .closing) :
      Move f c p { f with phase := .returned (.ok f.fed) } c.dropReceiver p.closeWriter
  | leaveFailed {f : Forwarder} {c : Channel Bytes} {p : Pipe} {e : Failure}
      (hi : f.writer.call = .idle) (hp : f.phase = .abandoning e) :
      Move f c p { f with phase := .returned (.error e) } c.dropReceiver p.closeWriter

theorem move_of_take {whenEmpty : Option (Forwarder × Channel Bytes × Pipe)}
    (h : f.take c p whenEmpty = some (f', c', p')) (hi : f.writer.call = .idle)
    (hp : f.phase = .taking ∨ f.phase = .awaiting)
    (he : c.waiting.toList = [] → whenEmpty = some (f', c', p') → Move f c p f' c' p') :
    Move f c p f' c' p' := by
  unfold take at h
  rcases c.receive_cases with ⟨record, waiting, hw, hr⟩ | ⟨hw, hr⟩ | ⟨hd, hr⟩ <;>
    simp only [hr] at h
  · cases h
    exact .take hi hp hw
  · exact he hw h
  · cases h
    exact .close hi hp hd

theorem move_of_step (h : f.step c p = some (f', c', p')) : Move f c p f' c' p' := by
  unfold step at h
  cases hidle : f.writer.isIdle with
  | false =>
    rw [hidle, Bool.not_false, if_pos rfl] at h
    unfold stepWriter at h
    cases hw : f.writer.step p with
    | moved w p' =>
      simp only [hw] at h
      cases h
      exact .push hidle hw
    | blocked =>
      simp only [hw] at h
      cases h
    | broken w =>
      simp only [hw] at h
      cases hp : f.phase with
      | abandoning e =>
        simp only [hp] at h
        cases h
        exact .leaveBroken hidle hw hp
      | taking | awaiting | counting | closing | returned =>
        simp only [hp] at h
        cases h
        exact .broken hidle hw
  | true =>
    have hi := Writer.isIdle_iff.mp hidle
    rw [hidle, Bool.not_true, if_neg Bool.false_ne_true] at h
    cases hp : f.phase with
    | taking =>
      simp only [hp] at h
      refine move_of_take h hi (.inl hp) fun hw he => ?_
      cases he
      exact .await hi hp hw
    | awaiting =>
      simp only [hp] at h
      exact move_of_take h hi (.inr hp) fun _ he => by cases he
    | counting =>
      simp only [hp] at h
      split_ifs at h with hf <;> cases h
      · exact .count hi hp (.inr ⟨hf, rfl, rfl⟩)
      · exact .count hi hp (.inl ⟨Nat.lt_of_not_le hf, rfl, rfl⟩)
    | closing =>
      simp only [hp] at h
      cases h
      exact .leave hi hp
    | abandoning e =>
      simp only [hp] at h
      cases h
      exact .leaveFailed hi hp
    | returned result =>
      simp only [hp] at h
      cases h

/-- What a step of a forwarder does to its channel and its pipe. -/
structure Effect (c c' : Channel Bytes) (p p' : Pipe) (taken : List Bytes) (part : Bytes) :
    Prop where
  waiting : c.waiting.toList = taken ++ c'.waiting.toList
  one : taken.length ≤ 1
  senders : c'.senders = c.senders
  content : p'.content = p.content ++ part

/-- What holds of a forwarder that has taken the records `rs` and pushed out the bytes `sent`. -/
structure Inv (c : Channel Bytes) (rs : List Bytes) (sent : Bytes) (p : Pipe) (f : Forwarder) :
    Prop where
  tidy : f.writer.Tidy
  writable : p.writable = f.result?.isNone
  idle : f.result?.isSome = true → f.writer.call = .idle
  kept : f.Fails ∨ rs.flatten = sent ++ f.writer.backlog ∧
    (f.Ends → c.Drained ∧ f.writer.Emptying)

variable {rs : List Bytes} {sent : Bytes}

theorem inv_start (c : Channel Bytes) (flushEvery room : Nat) :
    Inv c [] [] { capacity := room } { flushEvery } := by
  refine ⟨Writer.tidy_of_idle rfl, rfl, fun h => (by cases h), .inr ⟨rfl, ?_⟩⟩
  rintro (h | ⟨n, h⟩) <;> cases h

theorem not_fails_of_phase {phase : Phase} (hp : f.phase = phase)
    (hphase : ∀ e, phase ≠ .abandoning e ∧ phase ≠ .returned (.error e)) : ¬ f.Fails := by
  rintro ⟨e, h | h⟩
  · exact (hphase e).1 (hp ▸ h)
  · exact (hphase e).2 (hp ▸ h)

theorem going_of_step (h : f.step c p = some (f', c', p')) (hinv : f.Inv c rs sent p) :
    f.result? = none := by
  rw [← Option.isNone_iff_eq_none, ← Option.not_isSome, Bool.not_eq_true', Bool.eq_false_iff]
  intro hsome
  have hi := hinv.idle hsome
  unfold result? at hsome
  cases move_of_step h with
  | push hn | broken hn | leaveBroken hn =>
    rw [Writer.isIdle_iff.mpr hi] at hn
    cases hn
  | take _ hp | close _ hp => rcases hp with hp | hp <;> simp [hp] at hsome
  | await _ hp | count _ hp | leave _ hp | leaveFailed _ hp => simp [hp] at hsome

/-- **What a forwarder has pushed out and what it holds** are the records that it has taken. -/
theorem step_inv (h : f.step c p = some (f', c', p')) (hinv : f.Inv c rs sent p) :
    ∃ taken part, f'.Inv c' (rs ++ taken) (sent ++ part) p' ∧ Effect c c' p p' taken part := by
  have hgoing := going_of_step h hinv
  have hopen : p.writable = true := by rw [hinv.writable, hgoing]; rfl
  have hstay : Effect c c p p [] [] :=
    ⟨rfl, Nat.zero_le _, rfl, (List.append_nil _).symm⟩
  have hleave : Effect c c.dropReceiver p p.closeWriter [] [] :=
    ⟨rfl, Nat.zero_le _, rfl, (List.append_nil _).symm⟩
  cases move_of_step h with
  | push hi hw =>
    rcases Writer.step_cases hinv.tidy p with
      ⟨w', part, hw', ht, hb, he⟩ | ⟨hw', -⟩ | ⟨w', hw', -⟩ <;> rw [hw] at hw' <;> cases hw'
    refine ⟨[], part, ⟨ht, hinv.writable, fun hsome => ?_, hinv.kept.imp id fun hkept => ?_⟩,
      rfl, Nat.zero_le _, rfl, Pipe.content_append p part⟩
    · have hsome : f.result?.isSome = true := hsome
      rw [hgoing] at hsome
      cases hsome
    · rw [List.append_nil, hkept.1, hb, List.append_assoc]
      exact ⟨rfl, fun hends => ⟨(hkept.2 hends).1, he (hkept.2 hends).2⟩⟩
  | broken hi hw =>
    exact ⟨[], [], ⟨(Writer.emptying_flush _).tidy, hopen, fun hsome => (by cases hsome),
      .inl ⟨_, .inl rfl⟩⟩, hstay⟩
  | leaveBroken hi hw hp =>
    rcases Writer.step_cases hinv.tidy p with
      ⟨w', part, hw', -⟩ | ⟨hw', -⟩ | ⟨w', hw', -, -, hidle, -⟩ <;> rw [hw] at hw' <;> cases hw'
    exact ⟨[], [], ⟨Writer.tidy_of_idle hidle, rfl, fun _ => hidle, .inl ⟨_, .inr rfl⟩⟩, hleave⟩
  | @take record waiting hi hp hw =>
    have hgood : ¬ f.Fails := by
      rcases hp with hp | hp
      · exact not_fails_of_phase hp fun e => by simp
      · exact not_fails_of_phase hp fun e => by simp
    obtain ⟨hkept, -⟩ := hinv.kept.resolve_left hgood
    refine ⟨[record], [], ⟨Writer.tidy_write _ _, hopen, fun hsome => (by cases hsome),
      .inr ⟨?_, ?_⟩⟩, hw, Nat.le_refl _, rfl, (List.append_nil _).symm⟩
    · rw [List.flatten_append, hkept, Writer.backlog_write, Writer.backlog_of_idle hi,
        List.append_nil, List.append_assoc, List.flatten_singleton]
    · rintro (he | ⟨n, he⟩) <;> cases he
  | await hi hp hw =>
    obtain ⟨hkept, -⟩ := hinv.kept.resolve_left (not_fails_of_phase hp fun e => by simp)
    refine ⟨[], [], ⟨(Writer.emptying_flush _).tidy, hopen, fun hsome => (by cases hsome),
      .inr ⟨?_, ?_⟩⟩, hstay⟩
    · rw [List.append_nil, List.append_nil, hkept, Writer.backlog_of_idle hi]
      rfl
    · rintro (he | ⟨n, he⟩) <;> cases he
  | close hi hp hd =>
    have hgood : ¬ f.Fails := by
      rcases hp with hp | hp
      · exact not_fails_of_phase hp fun e => by simp
      · exact not_fails_of_phase hp fun e => by simp
    obtain ⟨hkept, -⟩ := hinv.kept.resolve_left hgood
    refine ⟨[], [], ⟨(Writer.emptying_flush _).tidy, hopen, fun hsome => (by cases hsome),
      .inr ⟨?_, fun _ => ⟨hd, Writer.emptying_flush _⟩⟩⟩, hstay⟩
    rw [List.append_nil, List.append_nil, hkept, Writer.backlog_of_idle hi]
    rfl
  | count hi hp hw =>
    obtain ⟨hkept, -⟩ := hinv.kept.resolve_left (not_fails_of_phase hp fun e => by simp)
    refine ⟨[], [], ⟨?_, hopen, fun hsome => (by cases hsome), .inr ⟨?_, ?_⟩⟩, hstay⟩
    · rcases hw with ⟨-, -, rfl⟩ | ⟨-, -, rfl⟩
      · exact hinv.tidy
      · exact (Writer.emptying_flush _).tidy
    · rw [List.append_nil, List.append_nil, hkept, Writer.backlog_of_idle hi]
      rcases hw with ⟨-, -, rfl⟩ | ⟨-, -, rfl⟩
      · rw [Writer.backlog_of_idle hi]
      · rfl
    · rintro (he | ⟨n, he⟩) <;> cases he
  | leave hi hp =>
    obtain ⟨hkept, hends⟩ := hinv.kept.resolve_left (not_fails_of_phase hp fun e => by simp)
    obtain ⟨hd, he⟩ := hends (.inl hp)
    refine ⟨[], [], ⟨hinv.tidy, rfl, fun _ => hi, .inr ⟨?_, fun _ => ⟨hd, he⟩⟩⟩, hleave⟩
    rw [List.append_nil, List.append_nil, hkept]
  | leaveFailed hi hp =>
    exact ⟨[], [], ⟨hinv.tidy, rfl, fun _ => hi, .inl ⟨_, .inr rfl⟩⟩, hleave⟩

theorem Inv.mono (h : f.Inv c rs sent p) (hc : c.Drained → c'.Drained) : f.Inv c' rs sent p :=
  ⟨h.tidy, h.writable, h.idle, h.kept.imp id fun hkept =>
    ⟨hkept.1, fun he => ⟨hc (hkept.2 he).1, (hkept.2 he).2⟩⟩⟩

theorem phase_of_result? {result : Except Failure Nat} (h : f.result? = some result) :
    f.phase = .returned result := by
  unfold result? at h
  split at h
  · rename_i r hp
    cases h
    exact hp
  · cases h

theorem Inv.of_ok (h : f.Inv c rs sent p) {n : Nat} (hr : f.result? = some (.ok n)) :
    c.Drained ∧ sent = rs.flatten := by
  have hp := phase_of_result? hr
  obtain ⟨hkept, hends⟩ := h.kept.resolve_left (not_fails_of_phase hp fun e => by simp)
  obtain ⟨hd, he⟩ := hends (.inr ⟨n, hp⟩)
  have hi := h.idle (by rw [hr]; rfl)
  rw [he.backlog_of_idle (Writer.isIdle_iff.mpr hi), List.append_nil] at hkept
  exact ⟨hd, hkept.symm⟩

end Forwarder

end Coprocess
