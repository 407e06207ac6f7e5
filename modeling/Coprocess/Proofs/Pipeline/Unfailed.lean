import Coprocess.Proofs.Feeder.Moves
import Coprocess.Proofs.Pipeline.Conformity

/-!
# Pipelines that do not fail

A source without malformed lines, a child that follows its input to the end, and a sink that takes
everything give nobody a reason to fail.

* `Feeder.Leaving`: a feeder that is done with the queue;
* `Collector.return_step`: how a collector comes to return;
* `Pipeline.Heeds`: a child that follows its input to the end;
* `Pipeline.Calm`: no failure so far, and the queue was given up only after its end marker;
* **`Pipeline.reaches_calm`**: so it stays, in every order of steps;
* `Pipeline.Calm.fed`, **`Pipeline.Calm.collected`**: what is known when one of them has returned.
-/

namespace Coprocess

/-! ## Feeders -/

namespace Feeder

variable {f f' : Feeder} {q q' : Queue Descriptor} {p p' : Pipe} {s₀ : Source}
  {published : List Parcel} {log : List (Message Descriptor)} {sent : Bytes} {e : Failure}

/-- A feeder that has given up the queue. -/
def Leaving (f : Feeder) : Prop :=
  match f.phase with
  | .closing | .abandoning _ | .returned _ => True
  | _ => False

/-- Only a feeder that is done gives up the queue. -/
theorem leaving_step (h : f.step q p = some (f', q', p')) (hq : q.producing = false → f.Leaving)
    (hq' : q'.producing = false) : f'.Leaving := by
  cases move_of_step h with
  | push => exact hq hq'
  | broken | brokenAgain | refuse | desert | finish | desertEnd | close | leave => exact trivial
  | publish _ hp =>
    have hl := hq hq'
    rcases hp with hp | hp <;> simp [Leaving, hp] at hl
  | fetch _ hp | runOut _ hp | await _ hp | skip _ hp | send _ hp | count _ hp | flush _ hp =>
    have hl := hq hq'
    simp [Leaving, hp] at hl

theorem Inv.failing (h : f.Inv s₀ published log sent q p)
    (he : f.phase = .abandoning e ∨ f.phase = .returned (.error e)) :
    Cause s₀ published q p e ∧ log = items published := by
  unfold Inv at h
  rcases he with he | he
  · simp only [he] at h
    exact ⟨h.1.cause, h.2.1⟩
  · simp only [he] at h
    exact ⟨h.1.cause, h.2.1⟩

theorem Inv.finished_mem (h : f.Inv s₀ published log sent q p) (hl : f.Leaving)
    (he : ∀ e, f.phase ≠ .abandoning e ∧ f.phase ≠ .returned (.error e)) :
    Message.finished ∈ log := by
  unfold Inv at h
  unfold Leaving at hl
  cases hp : f.phase with
  | closing =>
    simp only [hp] at h
    rw [h.2.1]
    simp
  | abandoning e => exact absurd hp (he e).1
  | returned result =>
    cases result with
    | ok n =>
      simp only [hp] at h
      rw [h.2.1]
      simp
    | error e => exact absurd hp (he e).2
  | fetching | counting | writing | awaiting | offering | ending => simp [hp] at hl

end Feeder

/-! ## Collectors -/

/-- How a collector comes to return: the producer of the queue is gone, the child has written too
little or too much, the sink is full, or the end marker was taken. -/
theorem Collector.return_step {c c' : Collector} {q q' : Queue Descriptor} {p p' : Pipe}
    {r : Except Failure Nat} (h : c.step q p = some (c', q', p')) (hr : c'.result? = some r) :
    (r = .error .queueClosed ∧ q.producing = false) ∨ (∃ k, r = .error (.underProduction k)) ∨
      (∃ k, r = .error (.overProduction k)) ∨
      (r = .error (.io (.os .pipe)) ∧ c.sink.outlet.limit.isSome = true) ∨
      (c.phase = .closing ∧ r ≠ .error .queueClosed) := by
  unfold step at h
  cases hp : c.phase with
  | consuming =>
    simp only [hp] at h
    rcases Queue.receive_cases q with ⟨m, waiting, -, hq⟩ | ⟨-, -, hq⟩ | ⟨-, hclosed, hq⟩
    · rw [hq] at h
      cases m <;> cases h <;> cases hr
    · rw [hq] at h
      cases h
    · rw [hq] at h
      cases h
      cases hr
      exact .inl ⟨rfl, hclosed⟩
  | gathering d missing ls =>
    cases missing with
    | zero =>
      simp only [hp, deliver] at h
      rcases Sink.writeUnit_cases c.sink (d.assemble ls.reverse c.slots).1 with
        ⟨t, hw, -⟩ | ⟨t, hw, hlimit⟩ <;> simp only [hw] at h <;> cases h <;> cases hr
      exact .inr (.inr (.inr (.inl ⟨rfl, hlimit⟩)))
    | succ missing =>
      simp only [hp] at h
      split at h <;> cases h
      · cases hr
      · simp [result?] at hr
      · cases hr
        exact .inr (.inl ⟨c.unit, rfl⟩)
  | watching =>
    simp only [hp] at h
    cases h
    simp only [result?] at hr
    split_ifs at hr
  | peeking =>
    simp only [hp, peek] at h
    split at h <;> cases h
    simp only [result?] at hr
    split_ifs at hr
  | confirming =>
    simp only [hp] at h
    split_ifs at h <;> cases h <;> cases hr
    exact .inr (.inr (.inl ⟨c.unit + 1, rfl⟩))
  | closing =>
    refine .inr (.inr (.inr (.inr ⟨rfl, ?_⟩)))
    rintro rfl
    simp only [hp, peek] at h
    split at h
    · split_ifs at h
      · cases h
        cases hr
      · cases hf : c.sink.outlet.flush.1 <;> simp only [Sink.finish, hf] at h <;> cases h <;>
          cases hr
    · cases h
  | returned result =>
    simp only [hp] at h
    cases h

theorem Collector.closed_step {c c' : Collector} {q q' : Queue Descriptor} {p p' : Pipe}
    (h : c.step q p = some (c', q', p')) (hr : c'.result? = some (.error .queueClosed)) :
    q.producing = false := by
  rcases return_step h hr with ⟨-, hclosed⟩ | ⟨k, hk⟩ | ⟨k, hk⟩ | ⟨hk, -⟩ | ⟨-, hne⟩
  · exact hclosed
  · cases hk
  · cases hk
  · cases hk
  · exact absurd rfl hne

/-! ## Pipelines -/

namespace Pipeline

variable {σ : Type}

/-- A child that follows its input to the end. -/
structure Heeds (p : Pipeline σ) (t : Transcript) : Prop extends Follows p t where
  reading : p.input.readable = false → t.atEnd = true

/-- Nobody has failed, and the feeder has not given up the queue before it was done. -/
structure Calm (p : Pipeline σ) : Prop where
  feeder : ∀ e, p.feeder.phase ≠ .abandoning e ∧ p.feeder.phase ≠ .returned (.error e)
  leaving : p.queue.producing = false → p.feeder.Leaving
  collector : ∀ e, p.collector.result? ≠ some (.error e)

section

variable {act : σ → Act σ} {kind : Source.Kind} {input : Bytes} {sink₀ : Sink}
  {published : List Parcel} {taken : List Descriptor} {log : List (Message Descriptor)}
  {before : Bytes} {now : Nat} {p p' : Pipeline σ} {t : Transcript}

/-- A feeder has no reason to fail: the source is fine, the child reads, and so does the
collector. -/
theorem calm_feeder (hfault : Source.fault? { kind, input } = none)
    (hs : p.stepOf act now .feeder = some p')
    (hinv : p.Inv { kind, input } sink₀ published taken log before t) (hc : Heeds p t)
    (h : p.Calm) : p'.Calm := by
  obtain ⟨⟨f, q, i⟩, hstep, rfl⟩ := Option.map_eq_some_iff.mp hs
  have hgoing := Feeder.going_of_step hstep hinv.feeder
  obtain ⟨more, messages, part, he, hf⟩ := Feeder.step_inv hstep hinv.feeder
  have hfine (e : Failure) : ¬ (f.phase = .abandoning e ∨ f.phase = .returned (.error e)) := by
    intro hfail
    obtain ⟨hcause, hlog⟩ := hf.failing hfail
    rcases hcause with ⟨-, hmal⟩ | ⟨-, hr⟩ | ⟨-, hcon⟩
    · cases hfault.symm.trans hmal
    · have hgone := (hinv.atEnd (hc.reading (he.readable.symm.trans hr))).1
      rw [hgoing] at hgone
      cases hgone
    · -- The collector has returned, without failure, so that it has seen the end marker.
      rw [he.consuming, hinv.collector.consuming] at hcon
      cases hres : p.collector.result? with
      | none => simp [hres] at hcon
      | some r =>
        cases r with
        | error e => exact h.collector e hres
        | ok n =>
          obtain ⟨-, -, -, -, hpre⟩ := hinv.collector.verdict hres
          have hmem : Message.finished ∈ log ++ messages :=
            List.mem_append_left _ (hpre.subset (by simp))
          rw [hlog] at hmem
          simp at hmem
  refine ⟨fun e => ⟨fun hp => hfine e (.inl hp), fun hp => hfine e (.inr hp)⟩, ?_, h.collector⟩
  exact Feeder.leaving_step hstep h.leaving

/-- A collector has no reason to fail: the child answers as it should, and the queue is closed only
after its end marker. -/
theorem calm_collector (hlimit : sink₀.outlet.limit = none)
    (hflush : sink₀.outlet.flushFails = false) (hs : p.stepOf act now .collector = some p')
    (hinv : p.Inv { kind, input } sink₀ published taken log before t) (hc : Follows p' t)
    (h : p.Calm) : p'.Calm := by
  obtain ⟨taken', before', hinv'⟩ := inv_collector hs hinv
  obtain ⟨⟨c, q, o⟩, hstep, rfl⟩ := Option.map_eq_some_iff.mp hs
  have hframe := Collector.step_progress hstep hinv.collector.stream.line
  refine ⟨h.feeder, fun hq => h.leaving (hframe.producing.symm.trans hq), fun e hr => ?_⟩
  have hv := hinv'.collector.verdict hr
  cases e with
  | underProduction k => exact hinv'.under_absurd hc hr
  | overProduction k => exact hinv'.over_absurd hc hr
  | queueClosed =>
    have hmem := hinv.feeder.finished_mem (h.leaving (Collector.closed_step hstep hr)) h.feeder
    rw [hv.2.2.1] at hmem
    simp at hmem
  | _ =>
    obtain ⟨-, hsink, -⟩ := hv
    rw [hlimit, hflush] at hsink
    simp at hsink

/-- **Nobody ever fails.** -/
theorem reaches_calm {Allowed : Pipeline σ → Transcript → Prop} {flow : Flow} {child : Child σ}
    {inputCapacity outputCapacity : Nat} (hfault : Source.fault? { kind, input } = none)
    (hlimit : sink₀.outlet.limit = none) (hflush : sink₀.outlet.flushFails = false)
    (ha : ∀ p t, Allowed p t → Heeds p t)
    (hr : Reaches act Allowed (start { kind, input } flow child sink₀
      { capacity := inputCapacity } { capacity := outputCapacity }) p t) : p.Calm := by
  induction hr with
  | start =>
    exact ⟨fun e => ⟨fun h => (by cases h), fun h => (by cases h)⟩, fun h => (by cases h),
      fun e h => (by cases h)⟩
  | @step p p' t hr now actor hs hal ih =>
    obtain ⟨published, taken, log, before, hinv⟩ :=
      reaches_inv hr (inv_begin { kind, input } flow child sink₀ inputCapacity outputCapacity)
    cases actor with
    | feeder => exact calm_feeder hfault hs hinv (ha _ _ hr.allowed) ih
    | collector => exact calm_collector hlimit hflush hs hinv (ha _ _ hal).toFollows ih
    | child =>
      obtain ⟨⟨c, i, o⟩, -, rfl⟩ := Option.map_eq_some_iff.mp hs
      exact ⟨ih.feeder, ih.leaving, ih.collector⟩

theorem Calm.fed (h : p.Calm) (hinv : p.Inv { kind, input } sink₀ published taken log before t)
    {r : Except Failure Nat} (hr : p.feeder.result? = some r) :
    r = .ok (Source.parcels { kind, input }).length ∧
      published = Source.parcels { kind, input } ∧
      t.taken ++ p.input.content = payloads (Source.parcels { kind, input }) := by
  cases r with
  | error e => exact absurd (Feeder.phase_of_result? hr) (h.feeder e).2
  | ok n =>
    obtain ⟨rfl, hp, -, hsent, -⟩ := hinv.feeder.of_ok hr
    exact ⟨rfl, hp, hsent⟩

/-- **A collector that has returned has made all units of all answers**: the child has read all
lines and closed its output. -/
theorem Calm.collected (h : p.Calm)
    (hinv : p.Inv { kind, input } sink₀ published taken log before t) (hc : Follows p t)
    {r : Except Failure Nat} (hr : p.collector.result? = some r) :
    r = .ok (Source.parcels { kind, input }).length ∧ p.output.writable = false ∧
      t.taken = payloads (Source.parcels { kind, input }) ∧
      p.collector.sink.outlet.written = sink₀.outlet.written ++
        ((Descriptor.assembleAll (descriptors (Source.parcels { kind, input }))
          (lines t.answered) {}).1.map (Sink.render sink₀.format)).flatten := by
  cases r with
  | error e => exact absurd hr (h.collector e)
  | ok n =>
    obtain ⟨hb, ⟨s, hs, he⟩, rfl, hend, hpre⟩ := hinv.collector.verdict hr
    obtain ⟨hgone, -, htaken⟩ := hinv.atEnd (hc.closing hend.1).1
    obtain ⟨r, hfr⟩ := Option.isSome_iff_exists.mp hgone
    obtain ⟨rfl, rfl, -⟩ := h.fed hinv hfr
    obtain ⟨-, -, -, -, hlog⟩ := hinv.feeder.of_ok hfr
    rw [hlog] at hpre
    obtain ⟨rfl, -⟩ := eq_of_finished hpre (by simp)
    rw [← hinv.collector.stream.of_atEnd hend] at hs
    refine ⟨by simp, hend.1, htaken, ?_⟩
    rw [he]
    exact hs.written

end

end Pipeline

end Coprocess
