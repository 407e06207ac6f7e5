import Coprocess.Proofs.Collector.Verdict
import Coprocess.Proofs.Pipeline.Backpressure
import Coprocess.Proofs.Pipeline.Effort
import Coprocess.Proofs.Pipeline.Unfailed
import Coprocess.Proofs.Supervision.Reports
import Mathlib.Data.List.Nodup

/-!
# Malformed lines are reported

A feeder that meets a malformed line leaves the queue without end marker. The collector then finds
the queue closed, and may say so first. A supervisor takes this for a symptom and waits for the
feeder.

* `Source.Kind.flaw?`: what is wrong with a line, `Source.fault?_of_flaw`;
* `Pipeline.Spoiled`: a feeder fails with one failure only, a collector only with a closed queue;
* **`Pipeline.reaches_spoiled`**: so it is in every order of steps;
* **`Pipeline.exists_reaches_of_run`**: the run of a pipeline ends with the verdict on its reports;
* **`Pipeline.malformed_reported`**: the outcome is the malformed line.
-/

namespace Coprocess

/-! ## Malformed lines -/

namespace Source

/-- What is wrong with a line, if anything is. -/
def Kind.flaw? : Kind → Bytes → Option Malformation
  | .document, line =>
    match Base64.decode line with
    | .ok _ => none
    | .error fault => some (.base64 fault)
  | .fold _, line =>
    match Utf8.decode line with
    | .ok _ => none
    | .error fault => some (.utf8 fault)
  | .cache _, _ => none

section

variable {kind : Kind} {line : Bytes} {flaw : Malformation}

theorem sends_of_flaw (h : kind.flaw? line = some flaw) : kind.Sends := by
  cases kind with
  | document | fold => trivial
  | cache => cases h

theorem describe_by_flaw (kind : Kind) (keys : List Bytes) (unit : Nat) (line : Bytes) :
    (∃ flaw, kind.flaw? line = some flaw ∧
        describe kind keys unit line = (.error (.malformed unit flaw), keys)) ∨
      kind.flaw? line = none ∧ ∃ p keys', describe kind keys unit line = (.ok p, keys') := by
  cases kind with
  | document =>
    simp only [Kind.flaw?, describe]
    cases Base64.decode line with
    | ok document => exact .inr ⟨rfl, _, _, rfl⟩
    | error fault => exact .inl ⟨_, rfl, rfl⟩
  | fold options =>
    simp only [Kind.flaw?, describe]
    cases Utf8.decode line with
    | ok text => exact .inr ⟨rfl, _, _, rfl⟩
    | error fault => exact .inl ⟨_, rfl, rfl⟩
  | cache key =>
    rcases describe_cache key keys unit line with ⟨slot, -, -, he⟩ | ⟨-, he⟩
    · exact .inr ⟨rfl, _, _, he⟩
    · exact .inr ⟨rfl, _, _, he⟩

theorem read_of_next {s s' : Source} {r : Except Failure Parcel} (h : s.next = some (r, s')) :
    s'.read = s.read + 1 := by
  unfold next at h
  cases hn : nextLine? s.input with
  | none => simp [hn] at h
  | some lr =>
    simp only [hn, Option.some.injEq, Prod.mk.injEq] at h
    rw [← h.2]

theorem next_of_lines {s : Source} {ls : List Bytes} (h : lines s.input = line :: ls) :
    ∃ r s', s.next = some (r, s') ∧ lines s'.input = ls ∧ s'.kind = s.kind ∧
      s'.read = s.read + 1 ∧ describe s.kind s.keys (s.read + 1) line = (r, s'.keys) := by
  cases hn : s.next with
  | none =>
    rw [input_of_none hn, lines_nil] at h
    cases h
  | some rs =>
    obtain ⟨r, s'⟩ := rs
    obtain ⟨line', -, hlines, hd, hkind⟩ := next_eq_some hn
    obtain ⟨rfl, rfl⟩ := List.cons.inj (h.symm.trans hlines)
    exact ⟨r, s', rfl, rfl, hkind, read_of_next hn, hd⟩

theorem fault?_of_flaw {s : Source} {good rest : List Bytes} {bad : Bytes}
    (hlines : lines s.input = good ++ bad :: rest)
    (hgood : ∀ line ∈ good, s.kind.flaw? line = none) (hbad : s.kind.flaw? bad = some flaw) :
    s.parcels.length = good.length ∧
      s.fault? = some (.malformed (s.read + good.length + 1) flaw) := by
  induction good generalizing s with
  | nil =>
    obtain ⟨r, s', hn, -, -, -, hd⟩ := next_of_lines hlines
    rcases describe_by_flaw s.kind s.keys (s.read + 1) bad with ⟨flaw', hflaw, he⟩ | ⟨hfine, -⟩
    · obtain ⟨rfl, -⟩ := Prod.mk.inj (hd.symm.trans he)
      obtain rfl := Option.some.inj (hbad.symm.trans hflaw)
      obtain ⟨hparcels, hfault⟩ := of_error hn
      rw [hparcels, hfault]
      exact ⟨rfl, rfl⟩
    · cases hbad.symm.trans hfine
  | cons line good ih =>
    obtain ⟨r, s', hn, hlines', hkind, hread, hd⟩ := next_of_lines hlines
    rcases describe_by_flaw s.kind s.keys (s.read + 1) line with
      ⟨flaw', hflaw, -⟩ | ⟨-, p, keys', he⟩
    · cases hflaw.symm.trans (hgood line List.mem_cons_self)
    obtain ⟨rfl, -⟩ := Prod.mk.inj (hd.symm.trans he)
    obtain ⟨hlen, hfault⟩ := ih hlines'
      (fun l hl => hkind ▸ hgood l (List.mem_cons_of_mem line hl)) (hkind ▸ hbad)
    rw [parcels_of_ok hn, fault?_of_ok hn, hfault, hread]
    refine ⟨by rw [List.length_cons, List.length_cons, hlen], ?_⟩
    congr 2
    rw [List.length_cons]
    omega

end

end Source

/-! ## Feeders -/

namespace Feeder

variable {f f' : Feeder} {q q' : Queue Descriptor} {p p' : Pipe} {s₀ : Source}
  {published : List Parcel} {log : List (Message Descriptor)} {sent : Bytes} {e : Failure}

theorem abandoning_step (h : f.step q p = some (f', q', p')) (hp : f.phase = .abandoning e) :
    f'.phase = .abandoning e ∨ f'.phase = .returned (.error e) := by
  cases move_of_step h with
  | push => exact .inl hp
  | broken _ _ hne => exact absurd hp (hne e)
  | brokenAgain _ _ hp' | leave _ hp' =>
    rw [hp] at hp'
    cases hp'
    exact .inr rfl
  | publish _ hp' | desert _ hp' =>
    rcases hp' with hp' | hp' <;> cases hp.symm.trans hp'
  | fetch _ hp' | refuse _ hp' | runOut _ hp' | await _ hp' | skip _ hp' | send _ hp'
  | count _ hp' | flush _ hp' | finish _ hp' | desertEnd _ hp' | close _ hp' =>
    cases hp.symm.trans hp'

theorem Inv.finished_not_mem (h : f.Inv s₀ published log sent q p) (hfault : s₀.fault? = some e) :
    Message.finished ∉ log := by
  obtain ⟨-, -, hlog | ⟨-, -, hnone, -⟩⟩ := h.announced
  · rw [hlog]
    simp
  · cases hfault.symm.trans hnone

/-- With a malformed line, a feeder gives up the queue only because it fails. -/
theorem Inv.failing_of_leaving (h : f.Inv s₀ published log sent q p)
    (hfault : s₀.fault? = some e) (hl : f.Leaving) :
    ∃ e', f.phase = .abandoning e' ∨ f.phase = .returned (.error e') := by
  by_contra hnone
  refine h.finished_not_mem hfault (h.finished_mem hl fun e' => ⟨fun hp => ?_, fun hp => ?_⟩)
  · exact hnone ⟨e', .inl hp⟩
  · exact hnone ⟨e', .inr hp⟩

end Feeder

/-! ## Pipelines -/

namespace Pipeline

variable {σ : Type}

/-- The feeder gives up the queue only with this failure, and the collector returns only because it
finds the queue closed. -/
structure Spoiled (failure : Failure) (p : Pipeline σ) : Prop where
  feeder : p.feeder.Leaving →
    p.feeder.phase = .abandoning failure ∨ p.feeder.phase = .returned (.error failure)
  leaving : p.queue.producing = false → p.feeder.Leaving
  collector : ∀ r, p.collector.result? = some r → r = .error .queueClosed ∧ p.feeder.Leaving

section

variable {act : σ → Act σ} {kind : Source.Kind} {input : Bytes} {sink₀ : Sink}
  {published : List Parcel} {taken : List Descriptor} {log : List (Message Descriptor)}
  {before : Bytes} {now : Nat} {failure : Failure} {p p' : Pipeline σ} {t : Transcript}

theorem spoiled_feeder (hfault : Source.fault? { kind, input } = some failure)
    (hs : p.stepOf act now .feeder = some p')
    (hinv : p.Inv { kind, input } sink₀ published taken log before t) (hc : Heeds p t)
    (h : p.Spoiled failure) : p'.Spoiled failure := by
  obtain ⟨⟨f, q, i⟩, hstep, rfl⟩ := Option.map_eq_some_iff.mp hs
  have hgoing := Feeder.going_of_step hstep hinv.feeder
  obtain ⟨more, messages, part, he, hf⟩ := Feeder.step_inv hstep hinv.feeder
  have hleaving := Feeder.leaving_step hstep h.leaving
  by_cases hl : p.feeder.Leaving
  · -- It is on its way out, and stays so.
    have hp : p.feeder.phase = .abandoning failure := by
      rcases h.feeder hl with hp | hp
      · exact hp
      · simp [Feeder.result?, hp] at hgoing
    have hp' := Feeder.abandoning_step hstep hp
    have hl' : f.Leaving := by
      rcases hp' with hp' | hp' <;> simp [Feeder.Leaving, hp']
    exact ⟨fun _ => hp', hleaving, fun r hr => ⟨(h.collector r hr).1, hl'⟩⟩
  · have hcollecting : p.collector.result? = none := by
      by_contra hsome
      obtain ⟨r, hr⟩ := Option.ne_none_iff_exists'.mp hsome
      exact hl (h.collector r hr).2
    refine ⟨fun hl' => ?_, hleaving, fun r hr => ?_⟩
    · obtain ⟨e, hfail⟩ := hf.failing_of_leaving hfault hl'
      rcases (hf.failing hfail).1 with ⟨-, hmal⟩ | ⟨-, hr⟩ | ⟨-, hcon⟩
      · obtain rfl := Option.some.inj (hfault.symm.trans hmal)
        exact hfail
      · have hgone := (hinv.atEnd (hc.reading (he.readable.symm.trans hr))).1
        rw [hgoing] at hgone
        cases hgone
      · rw [he.consuming, hinv.collector.consuming, hcollecting] at hcon
        cases hcon
    · cases hcollecting.symm.trans hr

theorem spoiled_collector (hfault : Source.fault? { kind, input } = some failure)
    (hlimit : sink₀.outlet.limit = none) (hs : p.stepOf act now .collector = some p')
    (hinv : p.Inv { kind, input } sink₀ published taken log before t) (hc : Follows p' t)
    (h : p.Spoiled failure) : p'.Spoiled failure := by
  obtain ⟨taken', before', hinv'⟩ := inv_collector hs hinv
  obtain ⟨⟨c, q, o⟩, hstep, rfl⟩ := Option.map_eq_some_iff.mp hs
  have hframe := Collector.step_progress hstep hinv.collector.stream.line
  have hgoing := Collector.going_of_step hstep
  refine ⟨h.feeder, fun hq => h.leaving (hframe.producing.symm.trans hq), fun r hr => ?_⟩
  rcases Collector.return_step hstep hr with
    ⟨rfl, hclosed⟩ | ⟨k, rfl⟩ | ⟨k, rfl⟩ | ⟨-, hsink⟩ | ⟨hclosing, -⟩
  · exact ⟨rfl, h.leaving hclosed⟩
  · exact absurd hr (hinv'.under_absurd hc)
  · exact absurd hr (hinv'.over_absurd hc)
  · obtain ⟨done, old, -, -, -, hholds⟩ := hinv.collector.holds hgoing
    rw [hholds.outlet.1, hlimit] at hsink
    cases hsink
  · -- The end marker would have been taken.
    have hstage := hinv.collector.stage
    unfold Collector.Stage at hstage
    simp only [hclosing] at hstage
    refine absurd ?_ (hinv.feeder.finished_not_mem hfault)
    rw [hstage.2]
    simp

/-- **The malformed line is the only failure of a feeder**, and the collector can at most find that
the feeder is gone. -/
theorem reaches_spoiled {Allowed : Pipeline σ → Transcript → Prop} {flow : Flow} {child : Child σ}
    {inputCapacity outputCapacity : Nat} (hfault : Source.fault? { kind, input } = some failure)
    (hlimit : sink₀.outlet.limit = none) (ha : ∀ p t, Allowed p t → Heeds p t)
    (hr : Reaches act Allowed (start { kind, input } flow child sink₀
      { capacity := inputCapacity } { capacity := outputCapacity }) p t) : p.Spoiled failure := by
  induction hr with
  | start => exact ⟨fun h => h.elim, fun h => (by cases h), fun r h => (by cases h)⟩
  | @step p p' t hr now actor hs hal ih =>
    obtain ⟨published, taken, log, before, hinv⟩ :=
      reaches_inv hr (inv_begin { kind, input } flow child sink₀ inputCapacity outputCapacity)
    cases actor with
    | feeder => exact spoiled_feeder hfault hs hinv (ha _ _ hr.allowed) ih
    | collector => exact spoiled_collector hfault hlimit hs hinv (ha _ _ hal).toFollows ih
    | child =>
      obtain ⟨⟨c, i, o⟩, -, rfl⟩ := Option.map_eq_some_iff.mp hs
      exact ⟨ih.feeder, ih.leaving, ih.collector⟩

theorem Spoiled.feeder_result (h : p.Spoiled failure) {r : Except Failure Nat}
    (hr : p.feeder.result? = some r) : r = .error failure := by
  have hp := Feeder.phase_of_result? hr
  have hl : p.feeder.Leaving := by simp [Feeder.Leaving, hp]
  rcases h.feeder hl with hp' | hp'
  · cases hp.symm.trans hp'
  · cases hp.symm.trans hp'
    rfl

/-- **What was written by then** is some of the units before the malformed line, each made of its
own lines. -/
theorem Spoiled.written (h : p.Spoiled failure)
    (hinv : p.Inv { kind, input } sink₀ published taken log before t) :
    ∃ j ≤ (Source.parcels { kind, input }).length, Trial.Written sink₀ {}
      (descriptors (Source.parcels { kind, input })) t.answered j p.collector.sink := by
  have hpublished : descriptors published <+: descriptors (Source.parcels { kind, input }) :=
    hinv.feeder.announced.1.map _
  have hbefore : lines before <+: lines t.answered := by
    have hpre := hinv.collector.stream.lines_prefix (fun _ => rfl)
    rwa [List.append_nil] at hpre
  have hwritten {done : List Descriptor} {old : List Bytes}
      (hdone : done <+: descriptors published) (hold : old <+: lines before)
      (hsum : (Descriptor.demands done {}).sum = old.length)
      (hholds : sink₀.Holds (Collector.built {} done old) p.collector.sink) :
      ∃ j ≤ (Source.parcels { kind, input }).length, Trial.Written sink₀ {}
        (descriptors (Source.parcels { kind, input })) t.answered j p.collector.sink := by
    have hall := hdone.trans hpublished
    refine ⟨done.length, ?_, Trial.written_of_holds hall (hold.trans hbefore) hsum hholds⟩
    rw [← List.length_map Parcel.descriptor]
    exact hall.length_le
  obtain ⟨tail, hlog, ht⟩ := hinv.log_eq
  cases hres : p.collector.result? with
  | none =>
    obtain ⟨done, old, hdone, hold, hsum, hholds⟩ := hinv.collector.holds hres
    have htaken := hinv.collector.taken_prefix hres
    rw [hlog] at htaken
    exact hwritten (hdone.trans (prefix_of_items htaken ht)) hold hsum hholds
  | some r =>
    obtain ⟨rfl, -⟩ := h.collector r hres
    obtain ⟨hbuilt, hholds, hitems, -⟩ := hinv.collector.verdict hres
    have htaken : taken.map .item <+: items published ++ tail :=
      ⟨[], by rw [List.append_nil, ← hlog, hitems]⟩
    exact hwritten (prefix_of_items htaken ht) List.prefix_rfl hbuilt.lines hholds

end

end Pipeline

/-! ## The outcome -/

namespace Pipeline

variable {σ : Type} {failure : Failure} {p : Pipeline σ}

theorem report?_inj {a a' : Actor} {r : Report} (h : p.report? a = some r)
    (h' : p.report? a' = some r) : a = a' := by
  cases a <;> cases a' <;> simp only [report?, Option.map_eq_some_iff] at h h'
  case feeder.feeder | child.child | collector.collector => rfl
  case feeder.collector | collector.feeder =>
    obtain ⟨_, -, rfl⟩ := h
    obtain ⟨_, -, he⟩ := h'
    cases he
  all_goals cases h <;> cases h'

theorem Spoiled.reports (h : p.Spoiled failure) (arrivals : List Actor) :
    ∀ r ∈ arrivals.filterMap p.report?,
      r.result = .error failure ∨ r.result = .error .queueClosed := by
  intro r hr
  obtain ⟨a, -, ha⟩ := List.mem_filterMap.mp hr
  cases a with
  | feeder =>
    obtain ⟨result, hresult, rfl⟩ := Option.map_eq_some_iff.mp ha
    exact .inl (h.feeder_result hresult)
  | child => cases ha
  | collector =>
    obtain ⟨result, hresult, rfl⟩ := Option.map_eq_some_iff.mp ha
    exact .inr (h.collector result hresult).1

theorem Spoiled.length_reports (h : p.Spoiled failure) {arrivals : List Actor}
    (hn : arrivals.Nodup)
    (hnone : ∀ r ∈ arrivals.filterMap p.report?, r.result ≠ .error failure) :
    (arrivals.filterMap p.report?).length ≤ 1 := by
  have hreader : ∀ r ∈ arrivals.filterMap p.report?, r = ⟨.reader, .error .queueClosed⟩ := by
    intro r hr
    obtain ⟨a, -, ha⟩ := List.mem_filterMap.mp hr
    cases a with
    | feeder =>
      obtain ⟨result, hresult, rfl⟩ := Option.map_eq_some_iff.mp ha
      exact absurd (h.feeder_result hresult) (hnone _ hr)
    | child => cases ha
    | collector =>
      obtain ⟨result, hresult, rfl⟩ := Option.map_eq_some_iff.mp ha
      rw [(h.collector result hresult).1]
  have hnodup : (arrivals.filterMap p.report?).Nodup :=
    List.Nodup.filterMap (fun _ _ _ ha ha' => report?_inj ha ha') hn
  rw [List.eq_replicate_of_mem hreader] at hnodup
  exact List.nodup_replicate.mp hnodup

theorem Spoiled.verdict (h : p.Spoiled failure) (hfailure : failure.isPrimary = true)
    {arrivals : List Actor} (hn : arrivals.Nodup) :
    (.feeder ∈ arrivals → p.feeder.result?.isSome = true →
        Watch.verdict? 2 (arrivals.filterMap p.report?) = some (.error failure)) ∧
      ∀ outcome, Watch.verdict? 2 (arrivals.filterMap p.report?) = some outcome →
        outcome = .error failure := by
  obtain ⟨hheard, hunheard⟩ := Watch.verdict?_symptoms hfailure (h.reports arrivals) 2
  refine ⟨fun hmem hsome => hheard ?_, fun outcome ho => ?_⟩
  · obtain ⟨result, hresult⟩ := Option.isSome_iff_exists.mp hsome
    refine ⟨⟨.feeder, result⟩, ?_, h.feeder_result hresult⟩
    refine List.mem_filterMap.mpr ⟨.feeder, hmem, ?_⟩
    rw [report?, hresult]
    rfl
  · by_cases hex : ∃ r ∈ arrivals.filterMap p.report?, r.result = .error failure
    · rw [hheard hex] at ho
      exact (Option.some.inj ho).symm
    · have hnone : ∀ r ∈ arrivals.filterMap p.report?, r.result ≠ .error failure :=
        fun r hr he => hex ⟨r, hr, he⟩
      have hlen := h.length_reports hn hnone
      rw [hunheard hnone (by omega)] at ho
      cases ho

/-! ### Under a supervisor -/

section

variable {act : σ → Act σ} {s₀ : Source} {sink₀ : Sink} {published : List Parcel}
  {taken : List Descriptor} {log : List (Message Descriptor)} {before : Bytes} {now : Nat}
  {s p' : Pipeline σ} {t : Transcript}

theorem report?_step {a : Actor} (hs : p.stepOf act now a = some p')
    (hinv : p.Inv s₀ sink₀ published taken log before t) :
    p.report? a = none ∧ ∀ b, b ≠ a → p'.report? b = p.report? b := by
  cases a with
  | feeder =>
    obtain ⟨⟨f, q, i⟩, hstep, rfl⟩ := Option.map_eq_some_iff.mp hs
    refine ⟨by rw [report?, Feeder.going_of_step hstep hinv.feeder]; rfl, fun b hb => ?_⟩
    cases b with
    | feeder => exact absurd rfl hb
    | child | collector => rfl
  | child =>
    obtain ⟨⟨c, i, o⟩, -, rfl⟩ := Option.map_eq_some_iff.mp hs
    refine ⟨rfl, fun b hb => ?_⟩
    cases b <;> rfl
  | collector =>
    obtain ⟨⟨c, q, o⟩, hstep, rfl⟩ := Option.map_eq_some_iff.mp hs
    refine ⟨by rw [report?, Collector.going_of_step hstep]; rfl, fun b hb => ?_⟩
    cases b with
    | collector => exact absurd rfl hb
    | feeder | child => rfl

/-- The reports of those who have returned, in some order. -/
def Reported (p : Pipeline σ) (reports : List Report) : Prop :=
  ∃ arrivals : List Actor, arrivals.Nodup ∧ (∀ a ∈ arrivals, p.report? a ≠ none) ∧
    reports = arrivals.filterMap p.report?

theorem reported_step {a : Actor} {reports : List Report} (hs : p.stepOf act now a = some p')
    (hinv : p.Inv s₀ sink₀ published taken log before t) (h : p.Reported reports) :
    p'.Reported (reports ++ (p'.report? a).toList) := by
  obtain ⟨arrivals, hn, hall, rfl⟩ := h
  obtain ⟨hnone, hothers⟩ := report?_step hs hinv
  have hne : ∀ b ∈ arrivals, b ≠ a := by
    rintro b hb rfl
    exact hall b hb hnone
  have hkept : arrivals.filterMap p'.report? = arrivals.filterMap p.report? :=
    List.filterMap_congr fun b hb => hothers b (hne b hb)
  have hall' : ∀ b ∈ arrivals, p'.report? b ≠ none := by
    intro b hb
    rw [hothers b (hne b hb)]
    exact hall b hb
  cases hr : p'.report? a with
  | none => exact ⟨arrivals, hn, hall', by rw [Option.toList_none, List.append_nil, hkept]⟩
  | some r =>
    refine ⟨arrivals ++ [a], ?_, fun b hb => ?_, ?_⟩
    · rw [List.nodup_append]
      exact ⟨hn, List.nodup_singleton a, fun b hb c hc => List.mem_singleton.mp hc ▸ hne b hb⟩
    · rcases List.mem_append.mp hb with hb | hb
      · exact hall' b hb
      · rw [List.mem_singleton.mp hb, hr]
        exact Option.some_ne_none r
    · rw [List.filterMap_append, hkept, List.filterMap_cons_some hr]
      rfl

/-- **A run under a supervisor** ends with the verdict on the reports of those who have returned,
unless the supervisor has waited too long for one of them. -/
theorem exists_reaches_of_run {Allowed : Pipeline σ → Transcript → Prop}
    (hinv : s.Inv s₀ sink₀ published taken log before {})
    (ha : ∀ p t, Reaches act (fun _ _ => True) s p t → Allowed p t) {fuel : Nat}
    {outcome : Schedule.Outcome} {s' : Schedule (Pipeline σ)}
    (hrun : Schedule.run (stages act) fuel { state := s, awaited := 2 } = some (outcome, s'))
    (hgrace : s'.deadline ≠ some s'.now) :
    ∃ (t : Transcript) (arrivals : List Actor), Reaches act Allowed s s'.state t ∧
      arrivals.Nodup ∧ Watch.verdict? 2 (arrivals.filterMap s'.state.report?) = some outcome := by
  let P (p : Pipeline σ) (reports : List Report) : Prop :=
    ∃ t, Reaches act (fun _ _ => True) s p t ∧ p.Reported reports
  have hstep : ∀ now p p' report? reports, P p reports →
      (stages act).step now p = some (p', report?) → P p' (reports ++ report?.toList) := by
    rintro now p p' report? reports ⟨t, hr, hreported⟩ hs
    obtain ⟨a, -, hactor⟩ := List.exists_of_findSome?_eq_some hs
    obtain ⟨q, hq, he⟩ := Option.map_eq_some_iff.mp hactor
    cases he
    obtain ⟨_, _, _, _, hp⟩ := reaches_inv hr hinv
    exact ⟨_, .step hr now a hq trivial, reported_step hq hp hreported⟩
  have hstart : P s [] :=
    ⟨{}, .start trivial, [], List.nodup_nil, fun a ha => (by cases ha), rfl⟩
  obtain ⟨reports, ⟨t, hr, arrivals, hn, -, rfl⟩, -, hverdict | ⟨hlate, -⟩⟩ :=
    Schedule.run_ended P hstep (Schedule.inv_start s 2) hstart hrun
  · exact ⟨t, arrivals, hr.restrict ha, hn, hverdict⟩
  · exact absurd hlate hgrace

end

/-- **A malformed line is reported as itself.** Before a child that follows its input to the end,
and on a sink that takes everything, in every order of steps:

* a run under a supervisor that does not wait too long for a report ends with the malformed line;
* whatever reports the supervisor has heard, in whatever order, its outcome is the malformed line,
  and there is one as soon as it has heard the feeder;
* somebody can go on, unless the feeder and the collector have returned, or the queue is bounded and
  the child withholds an answer; and nobody goes on for ever;
* the sink has got some of the units before the malformed line, in order. -/
theorem malformed_reported {kind : Source.Kind} {input bad : Bytes} {good rest : List Bytes}
    {flaw : Malformation} (hlines : lines input = good ++ bad :: rest)
    (hgood : ∀ line ∈ good, kind.flaw? line = none) (hbad : kind.flaw? bad = some flaw)
    (flow : Flow) (act : σ → Act σ) (child : Child σ) {sink : Sink}
    (hlimit : sink.outlet.limit = none) {inputCapacity outputCapacity : Nat}
    (hi : 0 < inputCapacity) (ho : 0 < outputCapacity) :
    let source : Source := { kind, input }
    let s := start source flow child sink { capacity := inputCapacity }
      { capacity := outputCapacity }
    let failure := Failure.malformed (good.length + 1) flaw
    source.parcels.length = good.length ∧
    ((∀ p t, Reaches act (fun _ _ => True) s p t → Heeds p t) → ∀ fuel outcome s',
      Schedule.run (stages act) fuel { state := s, awaited := 2 } = some (outcome, s') →
      s'.deadline ≠ some s'.now → outcome = .error failure) ∧
    ∀ p t, Reaches act Heeds s p t →
      (∀ arrivals : List Actor, arrivals.Nodup →
        (.feeder ∈ arrivals → p.feeder.result?.isSome = true →
          Watch.verdict? 2 (arrivals.filterMap p.report?) = some (.error failure)) ∧
        ∀ outcome, Watch.verdict? 2 (arrivals.filterMap p.report?) = some outcome →
          outcome = .error failure) ∧
      (Waits act p True → Stuck act p →
        ∃ n, flow.capacity = some n ∧ countLf t.answered ≠ countLf t.taken) ∧
      (∀ most now actor p', p.stepOf act now actor = some p' →
        (record act t p p' actor).answered.length ≤ most →
        effort most p' (record act t p p' actor) ≤ effort most p t ∧
          (actor ≠ .child → effort most p' (record act t p p' actor) < effort most p t)) ∧
      ∃ j ≤ good.length,
        Trial.Written sink {} (descriptors source.parcels) t.answered j p.collector.sink := by
  intro source s failure
  obtain ⟨hlen, hfault⟩ := Source.fault?_of_flaw (s := source) hlines hgood hbad
  rw [Nat.zero_add] at hfault
  have hbegin := inv_begin source flow child sink inputCapacity outputCapacity
  have hspoiled (p : Pipeline σ) (t : Transcript) (hr : Reaches act Heeds s p t) :
      p.Spoiled failure := reaches_spoiled hfault hlimit (fun _ _ h => h) hr
  refine ⟨hlen, fun hheeds fuel outcome s' hrun hgrace => ?_, fun p t hr => ?_⟩
  · obtain ⟨t, arrivals, hr, hn, hverdict⟩ := exists_reaches_of_run hbegin hheeds hrun hgrace
    exact ((hspoiled _ t hr).verdict rfl hn).2 outcome hverdict
  obtain ⟨published, taken, log, before, hinv⟩ := reaches_inv hr hbegin
  refine ⟨fun arrivals hn => (hspoiled p t hr).verdict rfl hn, fun hw hstuck => ?_,
    fun most now actor p' hs hmost => step_effort hs hinv hmost,
    hlen ▸ (hspoiled p t hr).written hinv⟩
  obtain ⟨n, hn, hcount | hrow⟩ := cause_of_stuck hi ho hr hr.allowed.toFollows hw hstuck
  · exact ⟨n, hn, hcount⟩
  · have hone : 0 < max 1 n := Nat.lt_of_lt_of_le Nat.one_pos (Nat.le_max_left 1 n)
    exact absurd hrow (not_repeatsInARow (Source.sends_of_flaw hbad) hone)

theorem Attends.heeds {p : Pipeline (Option Nat)} {t : Transcript} (h : Attends p t) :
    Heeds p t where
  toFollows :=
    have hstreams : Streams (clerk 1) p t := h.streams
    hstreams.toConforms.follows
  reading hr := by
    obtain ⟨-, -, hst⟩ := h
    cases hp : p.child.state with
    | none =>
      simp only [hp] at hst
      exact hst.2.1
    | some n =>
      simp only [hp] at hst
      rw [hst.2.1] at hr
      cases hr

/-- The second of three documents has a byte that no base64 has. Before a clerk a run under a
supervisor ends with it, and so it does when the collector is heard first. -/
theorem malformed_reported_second :
    let input : Bytes := [89, 81, 61, 61, lf, 64, lf, 89, 103, 61, 61]
    let s := start { kind := .document, input } { flushEvery := 1, capacity := some 1 }
      ({ state := some 0 } : Child (Option Nat)) { format := .document } { capacity := 2 }
      { capacity := 2 }
    let failure := Failure.malformed 2 (.base64 (.symbol 64 0))
    (lines input = [[89, 81, 61, 61]] ++ [64] :: [[89, 103, 61, 61]] ∧
      (∀ line ∈ [[89, 81, 61, 61]], Source.Kind.document.flaw? line = none) ∧
      Source.Kind.document.flaw? [64] = some (.base64 (.symbol 64 0)) ∧ 0 < 2) ∧
    (∃ s', Schedule.run (stages (clerk 2)) 60 { state := s, awaited := 2 } =
      some (.error failure, s')) ∧
    ∃ p t, Reaches (clerk 2) Heeds s p t ∧ p.collector.result?.isSome = true ∧
      Watch.verdict? 2 ([.collector, .feeder].filterMap p.report?) = some (.error failure) ∧
      ∃ j ≤ 1, Trial.Written { format := .document } {}
        (descriptors (Source.parcels { kind := .document, input })) t.answered j
        p.collector.sink := by
  intro input s failure
  have hlines : lines input = [[89, 81, 61, 61]] ++ [64] :: [[89, 103, 61, 61]] := by
    have hinput : input = [89, 81, 61, 61] ++ lf :: ([64] ++ lf :: [89, 103, 61, 61]) := rfl
    rw [hinput, lines_line (by decide), lines_line (by decide), lines_rest (by decide) (by decide)]
    rfl
  have hgood : ∀ line ∈ [[89, 81, 61, 61]], Source.Kind.document.flaw? line = none := by
    decide +kernel
  have hbad : Source.Kind.document.flaw? [64] = some (.base64 (.symbol 64 0)) := rfl
  have hlimit : ({ format := .document } : Sink).outlet.limit = none := rfl
  have htwo : 0 < 2 := Nat.zero_lt_succ 1
  obtain ⟨-, hrun, hall⟩ := malformed_reported hlines hgood hbad
    { flushEvery := 1, capacity := some 1 } (clerk 2) { state := some 0 } hlimit htwo htwo
  have hattends {p : Pipeline (Option Nat)} {t : Transcript}
      (hr : Reaches (clerk 2) (fun _ _ => True) s p t) : Attends p t :=
    (streams_clerk hr (inv_begin _ _ _ _ _ _)
      ⟨by simp, rfl, rfl, rfl, rfl, Nat.zero_le _, Nat.le_refl _, rfl⟩).1
  have hsupervised : (Schedule.run (stages (clerk 2)) 60 { state := s, awaited := 2 }).any
      (fun os => os.2.deadline ≠ some os.2.now) = true := by
    decide +kernel
  rw [Option.any_eq_true] at hsupervised
  obtain ⟨⟨outcome, s'⟩, hs', hgrace⟩ := hsupervised
  obtain rfl := hrun (fun p t hr => (hattends hr).heeds) 60 outcome s' hs'
    (of_decide_eq_true hgrace)
  have hdriven : (drive (clerk 2) (fun _ _ => true) [.collector, .child, .feeder] 20 s {}).any
      (fun pt => pt.1.feeder.result?.isSome && pt.1.collector.result?.isSome) = true := by
    decide +kernel
  rw [Option.any_eq_true] at hdriven
  obtain ⟨⟨p, t⟩, hd, he⟩ := hdriven
  obtain ⟨hfed, hcollected⟩ := Bool.and_eq_true_iff.mp he
  have hfree := reaches_drive (fun _ _ _ => trivial) (.start trivial) hd
  have hr : Reaches (clerk 2) Heeds s p t := hfree.restrict fun p t hr => (hattends hr).heeds
  obtain ⟨hverdict, -, -, hwritten⟩ := hall p t hr
  obtain ⟨hheard, -⟩ := hverdict [.collector, .feeder] (by simp)
  exact ⟨⟨hlines, hgood, hbad, htwo⟩, ⟨s', hs'⟩, p, t, hr, hcollected, hheard (by simp) hfed,
    hwritten⟩

end Pipeline

end Coprocess
