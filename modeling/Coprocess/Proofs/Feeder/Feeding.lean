import Coprocess.Pipeline.Feeder
import Coprocess.Proofs.Pipe.Transfer
import Coprocess.Proofs.Source.Parcels

/-!
# What a feeder publishes and sends

The parcels of the source are published in order; what reaches the pipe is a prefix of the lines of
those that are published.

* `Feeder.Course`, `Feeder.Trouble`: a feeder that goes on, and one that gives up;
* `Feeder.Inv`: what holds in each phase;
* `Feeder.Effect`: what a feeder does to its queue and its pipe;
* **`Feeder.step_inv`**: the invariant holds after every step;
* `Feeder.waits`, `Feeder.Inv.step_none`: what a feeder waits for;
* `Feeder.Inv.announced`, `Feeder.Inv.of_ok`: what the invariant says of all phases, and of success.
-/

namespace Coprocess

/-- The messages that announce parcels. -/
abbrev items (ps : List Parcel) : List (Message Descriptor) := (descriptors ps).map .item

theorem items_concat (ps : List Parcel) (p : Parcel) :
    items (ps ++ [p]) = items ps ++ [.item p.descriptor] := by
  simp

namespace Feeder

/-! ## The invariant -/

/-- A feeder that goes on: the parcels of `s₀` are those that are published, those at hand and those
to come, and the lines of the published ones are sent, held back or about to be written. -/
structure Course (s₀ : Source) (published atHand : List Parcel) (sent unwritten : Bytes)
    (source : Source) (writer : Writer) (fed : Nat) : Prop where
  parcels : s₀.parcels = published ++ atHand ++ source.parcels
  fault : s₀.fault? = source.fault?
  bytes : sent ++ writer.backlog ++ unwritten = payloads published
  fed : fed = (published ++ atHand).length
  tidy : writer.Tidy

/-- Why a feeder gives up: the source has a malformed line after the parcels, nobody reads the pipe,
or nobody reads the queue. -/
def Cause (s₀ : Source) (published : List Parcel) (q : Queue Descriptor) (p : Pipe)
    (e : Failure) : Prop :=
  (published = s₀.parcels ∧ s₀.fault? = some e) ∨
    (e = .io (.os .pipe) ∧ p.readable = false) ∨ (e = .queueClosed ∧ q.consuming = false)

/-- A feeder that gives up with `unsent` still to be pushed out; lines are lost only when nobody
reads them. -/
structure Trouble (s₀ : Source) (published : List Parcel) (sent unsent : Bytes)
    (q : Queue Descriptor) (p : Pipe) (e : Failure) : Prop where
  parcels : published <+: s₀.parcels
  bytes : sent ++ unsent <+: payloads published
  whole : p.readable = true → sent ++ unsent = payloads published
  cause : Cause s₀ published q p e

/-- What holds of a feeder that started with the source `s₀`: `published` are the parcels whose
descriptors are in the queue's `log`, and `sent` is what went into the pipe. -/
def Inv (s₀ : Source) (published : List Parcel) (log : List (Message Descriptor)) (sent : Bytes)
    (q : Queue Descriptor) (p : Pipe) (f : Feeder) : Prop :=
  match f.phase with
  | .fetching | .counting =>
    Course s₀ published [] sent [] f.source f.writer f.fed ∧ log = items published
  | .offering parcel =>
    Course s₀ published [parcel] sent [] f.source f.writer f.fed ∧ log = items published
  | .awaiting parcel =>
    Course s₀ published [parcel] sent [] f.source f.writer f.fed ∧ log = items published ∧
      f.writer.Emptying
  | .writing payload =>
    Course s₀ published [] sent payload f.source f.writer f.fed ∧ log = items published ∧
      f.writer.call = .idle
  | .ending =>
    Course s₀ published [] sent [] f.source f.writer f.fed ∧ log = items published ∧
      f.writer.Emptying ∧ f.source.next = none
  | .closing =>
    Course s₀ published [] sent [] f.source f.writer f.fed ∧
      log = items published ++ [.finished] ∧ f.writer.backlog = [] ∧ f.source.next = none
  | .abandoning e =>
    Trouble s₀ published sent f.writer.backlog q p e ∧ log = items published ∧
      f.writer.Emptying
  | .returned (.ok n) =>
    Course s₀ published [] sent [] f.source f.writer f.fed ∧
      log = items published ++ [.finished] ∧ f.writer.backlog = [] ∧ f.source.next = none ∧
      n = f.fed ∧ f.writer.call = .idle
  | .returned (.error e) =>
    Trouble s₀ published sent [] q p e ∧ log = items published ∧ f.writer.call = .idle

/-- What a step of a feeder does to its queue and its pipe: it adds messages and bytes at their
ends. -/
structure Effect (q q' : Queue Descriptor) (p p' : Pipe) (messages : List (Message Descriptor))
    (part : Bytes) : Prop where
  waiting : q'.waiting.toList = q.waiting.toList ++ messages
  limit : q'.capacity = q.capacity
  consuming : q'.consuming = q.consuming
  heard : messages ≠ [] → q.consuming = true
  content : p'.content = p.content ++ part
  readable : p'.readable = p.readable
  capacity : p'.capacity = p.capacity

/-- After a step the invariant holds again, with what was published and sent by the step. -/
def Advances (s₀ : Source) (published : List Parcel) (log : List (Message Descriptor))
    (sent : Bytes) (q : Queue Descriptor) (p : Pipe) (f' : Feeder) (q' : Queue Descriptor)
    (p' : Pipe) : Prop :=
  ∃ more messages part, Effect q q' p p' messages part ∧
    f'.Inv s₀ (published ++ more) (log ++ messages) (sent ++ part) q' p'

section

variable {s₀ s : Source} {published atHand : List Parcel} {log : List (Message Descriptor)}
  {sent unwritten unsent : Bytes} {q q' : Queue Descriptor} {p p' : Pipe} {f f' : Feeder}
  {w w' : Writer} {fed : Nat} {e : Failure}

theorem Effect.still (q : Queue Descriptor) (p : Pipe) : Effect q q p p [] [] :=
  ⟨by simp, rfl, rfl, fun h => absurd rfl h, by simp, rfl, rfl⟩

theorem Effect.bytes (q : Queue Descriptor) (p : Pipe) (part : Bytes) :
    Effect q q p { p with bytes := p.bytes ++ part } [] part :=
  ⟨by simp, rfl, rfl, fun h => absurd rfl h, Pipe.content_append p part, rfl, rfl⟩

theorem Effect.push (hc : q.consuming = true) (p : Pipe) (m : Message Descriptor) :
    Effect q { q with waiting := q.waiting.push m } p p [m] [] :=
  ⟨by simp, rfl, rfl, fun _ => hc, by simp, rfl, rfl⟩

theorem Effect.dropProducer {messages : List (Message Descriptor)} {part : Bytes}
    (h : Effect q q' p p' messages part) : Effect q q'.dropProducer p p' messages part :=
  ⟨h.1, h.2, h.3, h.4, h.5, h.6, h.7⟩

theorem Effect.leave (q : Queue Descriptor) (p : Pipe) :
    Effect q q.dropProducer p p.closeWriter [] [] :=
  ⟨by simp [Queue.dropProducer], rfl, rfl, fun h => absurd rfl h, by simp, rfl, rfl⟩

theorem Advances.of_messages {messages : List (Message Descriptor)}
    (he : Effect q q' p p' messages []) (more : List Parcel)
    (h : f'.Inv s₀ (published ++ more) (log ++ messages) sent q' p') :
    Advances s₀ published log sent q p f' q' p' :=
  ⟨more, messages, [], he, by rwa [List.append_nil]⟩

theorem Advances.of_still (he : Effect q q' p p' [] []) (h : f'.Inv s₀ published log sent q' p') :
    Advances s₀ published log sent q p f' q' p' := by
  refine Advances.of_messages he [] ?_
  rwa [List.append_nil, List.append_nil]

/-! ## Steps of the writer -/

theorem Course.moved (h : Course s₀ published atHand sent unwritten s w fed) {part : Bytes}
    (hb : w.backlog = part ++ w'.backlog) (ht : w'.Tidy) :
    Course s₀ published atHand (sent ++ part) unwritten s w' fed := by
  refine ⟨h.parcels, h.fault, ?_, h.fed, ht⟩
  rw [← h.bytes, hb]
  simp

theorem Course.broken (h : Course s₀ published atHand sent unwritten s w fed)
    (hr : p.readable = false) (hb : w'.backlog <+: w.backlog) :
    Trouble s₀ published sent w'.backlog q p (.io (.os .pipe)) := by
  refine ⟨⟨atHand ++ s.parcels, ?_⟩, ?_, fun ht => ?_, .inr (.inl ⟨rfl, hr⟩)⟩
  · rw [h.parcels, List.append_assoc]
  · obtain ⟨rest, e⟩ := hb
    exact ⟨rest ++ unwritten, by rw [← h.bytes, ← e]; simp⟩
  · rw [hr] at ht
    cases ht

theorem Trouble.moved (h : Trouble s₀ published sent unsent q p e) {part rest : Bytes}
    (hb : unsent = part ++ rest) :
    Trouble s₀ published (sent ++ part) rest q { p with bytes := p.bytes ++ part } e := by
  have e : sent ++ part ++ rest = sent ++ unsent := by rw [hb, List.append_assoc]
  exact ⟨h.parcels, by rw [e]; exact h.bytes, by rw [e]; exact h.whole, h.cause⟩

theorem Inv.tidy (h : f.Inv s₀ published log sent q p) : f.writer.Tidy := by
  unfold Inv at h
  cases hp : f.phase with
  | fetching | counting | offering | awaiting | writing | ending | closing =>
    simp only [hp] at h
    exact h.1.tidy
  | abandoning e =>
    simp only [hp] at h
    exact h.2.2.tidy
  | returned result =>
    cases result with
    | ok n =>
      simp only [hp] at h
      exact h.1.tidy
    | error e =>
      simp only [hp] at h
      exact Writer.tidy_of_idle h.2.2

theorem inv_moved (h : f.Inv s₀ published log sent q p) (hi : f.writer.call ≠ .idle)
    {part : Bytes} (hb : f.writer.backlog = part ++ w.backlog) (ht : w.Tidy)
    (he : f.writer.Emptying → w.Emptying) :
    { f with writer := w }.Inv s₀ published log (sent ++ part) q
      { p with bytes := p.bytes ++ part } := by
  obtain ⟨source, flushEvery, writer, fed, pending, phase⟩ := f
  cases phase with
  | fetching | counting | offering =>
    obtain ⟨hc, hl⟩ := h
    exact ⟨hc.moved hb ht, hl⟩
  | awaiting =>
    obtain ⟨hc, hl, hw⟩ := h
    exact ⟨hc.moved hb ht, hl, he hw⟩
  | writing =>
    obtain ⟨-, -, hw⟩ := h
    exact absurd hw hi
  | ending =>
    obtain ⟨hc, hl, hw, hn⟩ := h
    exact ⟨hc.moved hb ht, hl, he hw, hn⟩
  | closing =>
    obtain ⟨hc, hl, hw, hn⟩ := h
    have hw' : w.backlog = [] := (List.append_eq_nil_iff.mp (hb.symm.trans hw)).2
    exact ⟨hc.moved hb ht, hl, hw', hn⟩
  | abandoning e =>
    obtain ⟨hc, hl, hw⟩ := h
    exact ⟨hc.moved hb, hl, he hw⟩
  | returned result =>
    cases result with
    | ok n =>
      obtain ⟨-, -, -, -, -, hw⟩ := h
      exact absurd hw hi
    | error e =>
      obtain ⟨-, -, hw⟩ := h
      exact absurd hw hi

theorem inv_abandon (h : Course s₀ published atHand sent unwritten f.source f.writer f.fed)
    (hl : log = items published) (hr : p.readable = false) (hw : w.call = .idle)
    (hb : w.backlog <+: f.writer.backlog) :
    ({ f with writer := w }.abandon (.io (.os .pipe))).Inv s₀ published log sent q p := by
  have hf : w.flush.backlog = w.backlog := by
    rw [Writer.backlog_flush, Writer.backlog_of_idle hw]
  have ht : Trouble s₀ published sent w.flush.backlog q p (.io (.os .pipe)) := by
    rw [hf]
    exact h.broken hr hb
  exact ⟨ht, hl, Writer.emptying_flush w⟩

/-- A writer that nobody reads stops the feeder, or ends it when it gives up already. -/
theorem inv_broken (h : f.Inv s₀ published log sent q p) (hi : f.writer.call ≠ .idle)
    (hne : f.writer.backlog ≠ []) (hr : p.readable = false) (hw : w.call = .idle)
    (hb : w.backlog <+: f.writer.backlog)
    (hs : f.writer.step p = .broken w) (h' : f.stepWriter q p = some (f', q', p')) :
    Advances s₀ published log sent q p f' q' p' := by
  obtain ⟨source, flushEvery, writer, fed, pending, phase⟩ := f
  unfold stepWriter at h'
  rw [hs] at h'
  cases phase with
  | fetching | counting | offering =>
    obtain ⟨hc, hl⟩ := h
    cases h'
    exact .of_still (Effect.still _ _) (inv_abandon hc hl hr hw hb)
  | awaiting | ending =>
    obtain ⟨hc, hl, -⟩ := h
    cases h'
    exact .of_still (Effect.still _ _) (inv_abandon hc hl hr hw hb)
  | writing =>
    obtain ⟨-, -, hw⟩ := h
    exact absurd hw hi
  | closing =>
    obtain ⟨-, -, hw, -⟩ := h
    exact absurd hw hne
  | abandoning e =>
    obtain ⟨hc, hl, -⟩ := h
    cases h'
    refine .of_still (Effect.leave _ _) ⟨⟨hc.parcels, ?_, fun ht => ?_, hc.cause⟩, hl, hw⟩
    · rw [List.append_nil]
      exact (List.prefix_append sent writer.backlog).trans hc.bytes
    · exact absurd (hr.symm.trans ht) (by simp)
  | returned result =>
    cases result with
    | ok n =>
      obtain ⟨-, -, -, -, -, hw⟩ := h
      exact absurd hw hi
    | error e =>
      obtain ⟨-, -, hw⟩ := h
      exact absurd hw hi

/-! ## Steps of the feeder -/

theorem backlog_flush_of_idle (hi : w.call = .idle) : w.flush.backlog = w.backlog := by
  rw [Writer.backlog_flush, Writer.backlog_of_idle hi]

theorem Course.flush (h : Course s₀ published atHand sent unwritten s w fed)
    (hi : w.call = .idle) : Course s₀ published atHand sent unwritten s w.flush fed := by
  refine ⟨h.parcels, h.fault, ?_, h.fed, (Writer.emptying_flush w).tidy⟩
  rw [backlog_flush_of_idle hi]
  exact h.bytes

theorem Course.abandon (h : Course s₀ published atHand sent [] s w fed)
    (hi : w.call = .idle) (hc : Cause s₀ published q p e) :
    Trouble s₀ published sent w.flush.backlog q p e := by
  have hb : sent ++ w.flush.backlog = payloads published := by
    rw [backlog_flush_of_idle hi, ← h.bytes, List.append_nil]
  refine ⟨⟨atHand ++ s.parcels, ?_⟩, ?_, fun _ => hb, hc⟩
  · rw [h.parcels, List.append_assoc]
  · exact ⟨[], by rw [List.append_nil, hb]⟩

theorem inv_new (s₀ : Source) (flushEvery : Nat) (q : Queue Descriptor) (p : Pipe) :
    (Feeder.new s₀ flushEvery).Inv s₀ [] [] [] q p :=
  ⟨⟨rfl, rfl, rfl, rfl, Writer.tidy_of_idle rfl⟩, rfl⟩

/-- A descriptor is queued before the lines of its unit, or nobody reads the queue, or the queue is
full. -/
theorem inv_publish {parcel : Parcel} {whenFull : Option (Feeder × Queue Descriptor × Pipe)}
    (hc : Course s₀ published [parcel] sent [] f.source f.writer f.fed)
    (hl : log = items published) (hi : f.writer.call = .idle)
    (h : f.publish parcel q p whenFull = some (f', q', p')) :
    Advances s₀ published log sent q p f' q' p' ∨ whenFull = some (f', q', p') := by
  unfold publish at h
  rcases Queue.send_cases q (.item parcel.descriptor) with
    ⟨hq, hs⟩ | ⟨hq, hf, hs⟩ | ⟨hq, hf, hs⟩ <;> rw [hs] at h
  · cases h
    refine .inl (.of_still (Effect.still _ _) ?_)
    exact ⟨hc.abandon hi (.inr (.inr ⟨rfl, hq⟩)), hl, Writer.emptying_flush _⟩
  · exact .inr h
  · cases h
    refine .inl (.of_messages (Effect.push hq _ _) [parcel]
      ⟨⟨?_, ?_, ?_, ?_, hc.tidy⟩, ?_, hi⟩)
    · rw [List.append_nil]
      exact hc.parcels
    · exact hc.fault
    · have hb := hc.bytes
      rw [List.append_nil] at hb
      simp [payloads_append, hb]
    · rw [List.append_nil]
      exact hc.fed
    · rw [hl, items_concat]

theorem inv_fetch (hc : Course s₀ published [] sent [] f.source f.writer f.fed)
    (hl : log = items published) (hp : f.phase = .fetching) (hi : f.writer.call = .idle)
    (h : f.stepPhase q p = some (f', q', p')) :
    Advances s₀ published log sent q p f' q' p' := by
  unfold stepPhase at h
  simp only [hp] at h
  cases hn : f.source.next with
  | none =>
    simp only [hn, Option.some.injEq, Prod.mk.injEq] at h
    obtain ⟨rfl, rfl, rfl⟩ := h
    exact .of_still (Effect.still _ _) ⟨hc.flush hi, hl, Writer.emptying_flush _, hn⟩
  | some rs =>
    obtain ⟨r, s'⟩ := rs
    cases r with
    | error e =>
      simp only [hn, Option.some.injEq, Prod.mk.injEq] at h
      obtain ⟨rfl, rfl, rfl⟩ := h
      obtain ⟨hps, hf⟩ := Source.of_error hn
      have he : Cause s₀ published q p e := by
        refine .inl ⟨?_, by rw [hc.fault, hf]⟩
        rw [hc.parcels, hps, List.append_nil, List.append_nil]
      exact .of_still (Effect.still _ _) ⟨hc.abandon hi he, hl, Writer.emptying_flush _⟩
    | ok parcel =>
      simp only [hn, Option.some.injEq, Prod.mk.injEq] at h
      obtain ⟨rfl, rfl, rfl⟩ := h
      refine .of_still (Effect.still _ _) ⟨⟨?_, ?_, hc.bytes, ?_, hc.tidy⟩, hl⟩
      · rw [hc.parcels, Source.parcels_of_ok hn]
        simp
      · rw [hc.fault, Source.fault?_of_ok hn]
      · rw [hc.fed]
        simp

theorem inv_write {payload : Bytes}
    (hc : Course s₀ published [] sent payload f.source f.writer f.fed)
    (hl : log = items published) (hp : f.phase = .writing payload) (hi : f.writer.call = .idle)
    (h : f.stepPhase q p = some (f', q', p')) :
    Advances s₀ published log sent q p f' q' p' := by
  unfold stepPhase at h
  simp only [hp] at h
  split_ifs at h with he <;> cases h
  · rw [List.isEmpty_iff.mp he] at hc
    exact .of_still (Effect.still _ _) ⟨hc, hl⟩
  · refine .of_still (Effect.still _ _)
      ⟨⟨hc.parcels, hc.fault, ?_, hc.fed, Writer.tidy_write _ _⟩, hl⟩
    rw [Writer.backlog_write, ← Writer.backlog_of_idle hi, ← hc.bytes]
    simp

theorem inv_count (hc : Course s₀ published [] sent [] f.source f.writer f.fed)
    (hl : log = items published) (hp : f.phase = .counting) (hi : f.writer.call = .idle)
    (h : f.stepPhase q p = some (f', q', p')) :
    Advances s₀ published log sent q p f' q' p' := by
  unfold stepPhase at h
  simp only [hp] at h
  split_ifs at h <;> cases h
  · exact .of_still (Effect.still _ _) ⟨hc.flush hi, hl⟩
  · exact .of_still (Effect.still _ _) ⟨hc, hl⟩

theorem inv_end (hc : Course s₀ published [] sent [] f.source f.writer f.fed)
    (hl : log = items published) (he : f.writer.Emptying) (hn : f.source.next = none)
    (hp : f.phase = .ending) (hi : f.writer.call = .idle)
    (h : f.stepPhase q p = some (f', q', p')) :
    Advances s₀ published log sent q p f' q' p' := by
  have hb := he.backlog_of_idle (Writer.isIdle_iff.mpr hi)
  unfold stepPhase at h
  simp only [hp] at h
  rcases Queue.send_cases q .finished with ⟨hq, hs⟩ | ⟨hq, hf, hs⟩ | ⟨hq, hf, hs⟩ <;> rw [hs] at h
  · cases h
    refine .of_still (Effect.still _ _).dropProducer ?_
    exact ⟨hc.abandon hi (.inr (.inr ⟨rfl, hq⟩)), hl, Writer.emptying_flush _⟩
  · cases h
  · cases h
    refine .of_messages (Effect.push hq _ _).dropProducer [] ?_
    rw [List.append_nil]
    exact ⟨hc.flush hi, by rw [hl], by rw [backlog_flush_of_idle hi, hb], hn⟩

theorem inv_leave (hinv : f.Inv s₀ published log sent q p) (hi : f.writer.call = .idle)
    (hp : f.phase = .closing ∨ ∃ e, f.phase = .abandoning e)
    (h : f.stepPhase q p = some (f', q', p')) : Advances s₀ published log sent q p f' q' p' := by
  obtain ⟨source, flushEvery, writer, fed, pending, phase⟩ := f
  rcases hp with rfl | ⟨e, rfl⟩ <;> cases h
  · obtain ⟨hc, hl, hw, hn⟩ := hinv
    exact .of_still (Effect.leave _ _) ⟨hc, hl, hw, hn, rfl, hi⟩
  · obtain ⟨hc, hl, he⟩ := hinv
    have hb := he.backlog_of_idle (Writer.isIdle_iff.mpr hi)
    rw [hb] at hc
    exact .of_still (Effect.leave _ _) ⟨⟨hc.1, hc.2, hc.3, hc.4⟩, hl, hi⟩

theorem inv_stepPhase (hinv : f.Inv s₀ published log sent q p) (hi : f.writer.call = .idle)
    (h : f.stepPhase q p = some (f', q', p')) : Advances s₀ published log sent q p f' q' p' := by
  have hinv' := hinv
  unfold Inv at hinv
  cases hp : f.phase with
  | fetching =>
    simp only [hp] at hinv
    exact inv_fetch hinv.1 hinv.2 hp hi h
  | offering parcel =>
    simp only [hp] at hinv
    obtain ⟨hc, hl⟩ := hinv
    unfold stepPhase at h
    simp only [hp] at h
    rcases inv_publish hc hl hi h with ha | hf
    · exact ha
    · cases hf
      exact .of_still (Effect.still _ _) ⟨hc.flush hi, hl, Writer.emptying_flush _⟩
  | awaiting parcel =>
    simp only [hp] at hinv
    obtain ⟨hc, hl, -⟩ := hinv
    unfold stepPhase at h
    simp only [hp] at h
    rcases inv_publish hc hl hi h with ha | hf
    · exact ha
    · cases hf
  | writing payload =>
    simp only [hp] at hinv
    exact inv_write hinv.1 hinv.2.1 hp hi h
  | counting =>
    simp only [hp] at hinv
    exact inv_count hinv.1 hinv.2 hp hi h
  | ending =>
    simp only [hp] at hinv
    exact inv_end hinv.1 hinv.2.1 hinv.2.2.1 hinv.2.2.2 hp hi h
  | closing => exact inv_leave hinv' hi (.inl hp) h
  | abandoning e => exact inv_leave hinv' hi (.inr ⟨e, hp⟩) h
  | returned result =>
    unfold stepPhase at h
    simp only [hp] at h
    cases h

/-- **What a feeder publishes and sends stays in order.** -/
theorem step_inv (h : f.step q p = some (f', q', p')) (hinv : f.Inv s₀ published log sent q p) :
    Advances s₀ published log sent q p f' q' p' := by
  unfold step at h
  by_cases hi : f.writer.isIdle = true
  · rw [if_pos hi] at h
    exact inv_stepPhase hinv (Writer.isIdle_iff.mp hi) h
  · rw [if_neg hi] at h
    have hbusy : f.writer.call ≠ .idle := fun hc => hi (Writer.isIdle_iff.mpr hc)
    rcases Writer.step_cases hinv.tidy p with
      ⟨w, part, hs, ht, hb, he⟩ | ⟨hs, -⟩ | ⟨w, hs, hne, hr, hw, hb⟩
    · unfold stepWriter at h
      rw [hs] at h
      cases h
      refine ⟨[], [], part, Effect.bytes _ _ _, ?_⟩
      rw [List.append_nil, List.append_nil]
      exact inv_moved hinv hbusy hb ht he
    · unfold stepWriter at h
      rw [hs] at h
      cases h
    · exact inv_broken hinv hbusy hne hr hw hb hs h

theorem Inv.mono (h : f.Inv s₀ published log sent q p)
    (hq : q'.consuming = true → q.consuming = true)
    (hp : p'.readable = true → p.readable = true) : f.Inv s₀ published log sent q' p' := by
  have hcause {e : Failure} (hc : Cause s₀ published q p e) : Cause s₀ published q' p' e := by
    rcases hc with hc | ⟨he, hr⟩ | ⟨he, hr⟩
    · exact .inl hc
    · refine .inr (.inl ⟨he, ?_⟩)
      by_contra hn
      rw [hp (by simpa using hn)] at hr
      cases hr
    · refine .inr (.inr ⟨he, ?_⟩)
      by_contra hn
      rw [hq (by simpa using hn)] at hr
      cases hr
  have htrouble {e : Failure} {unsent : Bytes} (ht : Trouble s₀ published sent unsent q p e) :
      Trouble s₀ published sent unsent q' p' e :=
    ⟨ht.parcels, ht.bytes, fun hr => ht.whole (hp hr), hcause ht.cause⟩
  unfold Inv at h ⊢
  cases hph : f.phase with
  | abandoning e =>
    simp only [hph] at h ⊢
    exact ⟨htrouble h.1, h.2⟩
  | returned result =>
    cases result with
    | ok n =>
      simp only [hph] at h ⊢
      exact h
    | error e =>
      simp only [hph] at h ⊢
      exact ⟨htrouble h.1, h.2⟩
  | fetching | counting | offering | awaiting | writing | ending | closing =>
    simp only [hph] at h ⊢
    exact h

/-! ## The ends of the queue and the pipe -/

/-- A feeder has left exactly when its end of the pipe is closed; its end of the queue is closed as
well then. -/
structure Present (q : Queue Descriptor) (p : Pipe) (f : Feeder) : Prop where
  writable : p.writable = f.result?.isNone
  producing : f.result?.isSome = true → q.producing = false

theorem present_leave (f : Feeder) (result : Except Failure Nat) (q : Queue Descriptor)
    (p : Pipe) :
    Present (f.leave result q p).2.1 (f.leave result q p).2.2 (f.leave result q p).1 :=
  ⟨rfl, fun _ => rfl⟩

theorem present_stepPhase (h : f.stepPhase q p = some (f', q', p')) (hw : Present q p f) :
    Present q' p' f' := by
  obtain ⟨hw, hq⟩ := hw
  obtain ⟨source, flushEvery, writer, fed, pending, phase⟩ := f
  cases phase with
  | closing | abandoning =>
    cases h
    exact present_leave _ _ _ _
  | returned => cases h
  | fetching | writing | counting | offering | awaiting | ending =>
    simp only [stepPhase, publish] at h
    split at h <;> cases h <;> exact ⟨hw, fun h => by cases h⟩

theorem Inv.idle {result : Except Failure Nat} (h : f.Inv s₀ published log sent q p)
    (hp : f.phase = .returned result) : f.writer.call = .idle := by
  unfold Inv at h
  cases result with
  | ok n =>
    simp only [hp] at h
    exact h.2.2.2.2.2
  | error e =>
    simp only [hp] at h
    exact h.2.2

theorem going_of_step (h : f.step q p = some (f', q', p'))
    (hinv : f.Inv s₀ published log sent q p) : f.result? = none := by
  cases hp : f.phase with
  | returned result =>
    unfold step stepPhase at h
    rw [if_pos (Writer.isIdle_iff.mpr (hinv.idle hp))] at h
    simp only [hp] at h
    cases h
  | fetching | writing | counting | offering | awaiting | ending | closing | abandoning =>
    simp [result?, hp]

theorem present_step (h : f.step q p = some (f', q', p'))
    (hinv : f.Inv s₀ published log sent q p) (hw : Present q p f) : Present q' p' f' := by
  unfold step at h
  by_cases hi : f.writer.isIdle = true
  · rw [if_pos hi] at h
    exact present_stepPhase h hw
  · rw [if_neg hi] at h
    unfold stepWriter at h
    have hbusy (result : Except Failure Nat) : f.phase ≠ .returned result := fun hp =>
      hi (Writer.isIdle_iff.mpr (hinv.idle hp))
    rcases Writer.step_cases hinv.tidy p with ⟨w, part, hs, -⟩ | ⟨hs, -⟩ | ⟨w, hs, -⟩ <;>
      rw [hs] at h
    · cases h
      exact ⟨hw.writable, hw.producing⟩
    · cases h
    · obtain ⟨hw, hq⟩ := hw
      obtain ⟨source, flushEvery, writer, fed, pending, phase⟩ := f
      cases phase with
      | abandoning e =>
        cases h
        exact present_leave _ _ _ _
      | returned result => exact absurd rfl (hbusy result)
      | fetching | writing | counting | offering | awaiting | ending | closing =>
        cases h
        exact ⟨hw, fun h => by cases h⟩

/-! ## What the invariant says -/

/-- The next step of the feeder sends a message, and is not possible while there is no room for
it. -/
def waits (f : Feeder) : Bool :=
  match f.phase with
  | .awaiting _ | .ending => f.writer.isIdle
  | _ => false

theorem waits_of_step_none (h : f.step q p = none) (hi : f.writer.isIdle = true)
    (hr : f.result? = none) : f.waits = true ∧ q.isFull = true ∧ q.consuming = true := by
  unfold step stepPhase at h
  rw [if_pos hi] at h
  cases hp : f.phase with
  | awaiting parcel =>
    simp only [hp, publish] at h
    rcases Queue.send_cases q (.item parcel.descriptor) with ⟨-, hs⟩ | ⟨hq, hf, -⟩ | ⟨-, -, hs⟩
    · rw [hs] at h
      cases h
    · exact ⟨by simp only [waits, hp, hi], hf, hq⟩
    · rw [hs] at h
      cases h
  | ending =>
    simp only [hp] at h
    rcases Queue.send_cases q .finished with ⟨-, hs⟩ | ⟨hq, hf, -⟩ | ⟨-, -, hs⟩
    · rw [hs] at h
      cases h
    · exact ⟨by simp only [waits, hp, hi], hf, hq⟩
    · rw [hs] at h
      cases h
  | returned result => simp [result?, hp] at hr
  | closing | abandoning =>
    simp only [hp] at h
    cases h
  | fetching | offering | writing | counting =>
    simp only [hp, publish] at h
    split at h <;> cases h

/-- A feeder that waits for room has flushed before. -/
theorem Inv.of_waits (hinv : f.Inv s₀ published log sent q p) (hw : f.waits = true) :
    log = items published ∧ sent = payloads published ∧ f.writer.held = #[] := by
  have hall {atHand : List Parcel} (he : f.writer.Emptying) (hi : f.writer.isIdle = true)
      (hc : Course s₀ published atHand sent [] f.source f.writer f.fed) :
      sent = payloads published ∧ f.writer.held = #[] := by
    have hb := he.backlog_of_idle hi
    refine ⟨?_, ?_⟩
    · rw [← hc.bytes, hb, List.append_nil, List.append_nil]
    · rw [Writer.backlog_of_idle (Writer.isIdle_iff.mp hi)] at hb
      exact Array.toList_eq_nil_iff.mp hb
  unfold waits at hw
  unfold Inv at hinv
  cases hp : f.phase with
  | awaiting parcel =>
    simp only [hp] at hinv hw
    exact ⟨hinv.2.1, hall hinv.2.2 hw hinv.1⟩
  | ending =>
    simp only [hp] at hinv hw
    exact ⟨hinv.2.1, hall hinv.2.2.1 hw hinv.1⟩
  | fetching | offering | writing | counting | closing | abandoning | returned =>
    simp [hp] at hw

/-- **Why a feeder waits**: it has returned, its pipe is full, or the queue is full and it has
flushed before. -/
theorem Inv.step_none (hinv : f.Inv s₀ published log sent q p) (h : f.step q p = none) :
    f.result?.isSome = true ∨ (f.writer.backlog ≠ [] ∧ p.room = 0) ∨
      (q.isFull = true ∧ q.consuming = true ∧ sent = payloads published ∧
        log = items published) := by
  by_cases hi : f.writer.isIdle = true
  · cases hr : f.result? with
    | some result => exact .inl rfl
    | none =>
      obtain ⟨hw, hf, hq⟩ := waits_of_step_none h hi hr
      obtain ⟨hl, hs, -⟩ := hinv.of_waits hw
      exact .inr (.inr ⟨hf, hq, hs, hl⟩)
  · unfold step stepWriter at h
    rw [if_neg hi] at h
    rcases Writer.step_cases hinv.tidy p with ⟨w, part, hs, -⟩ | ⟨-, hb, -, hr⟩ | ⟨w, hs, -⟩
    · rw [hs] at h
      cases h
    · exact .inr (.inl ⟨hb, hr⟩)
    · rw [hs] at h
      simp only at h
      split at h <;> cases h

/-- **What is announced and sent** is a beginning of what the source yields. -/
theorem Inv.announced (h : f.Inv s₀ published log sent q p) :
    published <+: s₀.parcels ∧ sent <+: payloads published ∧
      (log = items published ∨ log = items published ++ [.finished] ∧ published = s₀.parcels ∧
        s₀.fault? = none ∧ sent = payloads published) := by
  have hcourse {atHand : List Parcel} {unwritten : Bytes}
      (hc : Course s₀ published atHand sent unwritten f.source f.writer f.fed) :
      published <+: s₀.parcels ∧ sent <+: payloads published := by
    refine ⟨⟨atHand ++ f.source.parcels, ?_⟩, ⟨f.writer.backlog ++ unwritten, ?_⟩⟩
    · rw [hc.parcels, List.append_assoc]
    · rw [← hc.bytes, List.append_assoc]
  have hlast (hc : Course s₀ published [] sent [] f.source f.writer f.fed)
      (hb : f.writer.backlog = []) (hn : f.source.next = none) :
      published = s₀.parcels ∧ s₀.fault? = none ∧ sent = payloads published := by
    obtain ⟨hps, hf⟩ := Source.of_none hn
    refine ⟨?_, hc.fault.trans hf, ?_⟩
    · rw [hc.parcels, hps, List.append_nil, List.append_nil]
    · rw [← hc.bytes, hb, List.append_nil, List.append_nil]
  unfold Inv at h
  cases hp : f.phase with
  | fetching | counting | offering =>
    simp only [hp] at h
    exact ⟨(hcourse h.1).1, (hcourse h.1).2, .inl h.2⟩
  | awaiting | writing | ending =>
    simp only [hp] at h
    exact ⟨(hcourse h.1).1, (hcourse h.1).2, .inl h.2.1⟩
  | closing =>
    simp only [hp] at h
    exact ⟨(hcourse h.1).1, (hcourse h.1).2, .inr ⟨h.2.1, hlast h.1 h.2.2.1 h.2.2.2⟩⟩
  | abandoning e =>
    simp only [hp] at h
    exact ⟨h.1.parcels, (List.prefix_append sent _).trans h.1.bytes, .inl h.2.1⟩
  | returned result =>
    cases result with
    | ok n =>
      simp only [hp] at h
      exact ⟨(hcourse h.1).1, (hcourse h.1).2, .inr ⟨h.2.1, hlast h.1 h.2.2.1 h.2.2.2.1⟩⟩
    | error e =>
      simp only [hp] at h
      exact ⟨h.1.parcels, (List.prefix_append sent _).trans h.1.bytes, .inl h.2.1⟩

theorem Inv.sent_all (h : f.Inv s₀ published log sent q p) (hr : f.result?.isSome = true)
    (hp : p.readable = true) : sent = payloads published := by
  unfold Inv at h
  cases hph : f.phase with
  | returned result =>
    cases result with
    | ok n =>
      simp only [hph] at h
      obtain ⟨hc, -, hb, -⟩ := h
      rw [← hc.bytes, hb, List.append_nil, List.append_nil]
    | error e =>
      simp only [hph] at h
      rw [← h.1.whole hp, List.append_nil]
  | fetching | writing | counting | offering | awaiting | ending | closing | abandoning =>
    simp [result?, hph] at hr

theorem phase_of_result? {result : Except Failure Nat} (h : f.result? = some result) :
    f.phase = .returned result := by
  unfold result? at h
  cases hp : f.phase with
  | returned r => simpa [hp] using h
  | fetching | writing | counting | offering | awaiting | ending | closing | abandoning =>
    simp [hp] at h

/-- **A feeder that succeeds has announced and sent everything.** -/
theorem Inv.of_ok {n : Nat} (h : f.Inv s₀ published log sent q p)
    (hr : f.result? = some (.ok n)) :
    n = s₀.parcels.length ∧ published = s₀.parcels ∧ s₀.fault? = none ∧
      sent = payloads s₀.parcels ∧ log = items s₀.parcels ++ [.finished] := by
  have hp := phase_of_result? hr
  unfold Inv at h
  simp only [hp] at h
  obtain ⟨hc, hl, hb, hn, rfl, -⟩ := h
  obtain ⟨hps, hf⟩ := Source.of_none hn
  have he : published = s₀.parcels := by
    rw [hc.parcels, hps, List.append_nil, List.append_nil]
  have hs : sent = payloads published := by
    rw [← hc.bytes, hb, List.append_nil, List.append_nil]
  refine ⟨?_, he, hc.fault.trans hf, by rw [hs, he], by rw [hl, he]⟩
  rw [hc.fed, List.append_nil, he]

end

end Feeder

end Coprocess
