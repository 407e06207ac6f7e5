import Coprocess.Pipeline.Schedule
import Mathlib.Data.List.Basic

/-!
# What a supervisor makes of reports

* `failures`, `Failure.isPrimary`: the failures among some reports, and those that are no symptoms
  of others;
* `Watch.notes_primary`, `Watch.notes_secondary`: what a supervisor knows after some reports;
* `foremost?`, `supervise_of_foremost`, `supervise_of_no_failure`: the outcome of some reports in
  terms of their failures;
* `Watch.verdict?`: the outcome for a supervisor that has heard some of the reports;
* **`Watch.verdict?_symptoms`**: a failure is told from the closed queues that it leaves behind;
* `Schedule.Inv`, `Schedule.inv_note`: a supervisor at work knows what was reported;
* **`Schedule.run_ended`**: a run ends with the verdict on the reports, or because none came for too
  long; `Schedule.run_ok`: with success only when all stages have reported.
-/

namespace Coprocess

/-! ## The failures among some reports -/

/-- The failure that is reported, if it is one. -/
def Report.failure? (r : Report) : Option Failure :=
  match r.result with
  | .ok _ => none
  | .error failure => some failure

/-- The count that is reported, or none for a failure. -/
def Report.tally (r : Report) : Stage × Nat :=
  match r.result with
  | .ok count => (r.stage, count)
  | .error _ => (r.stage, 0)

/-- The failures among some reports, in the order of arrival. -/
def failures (reports : List Report) : List Failure := reports.filterMap Report.failure?

/-- A failure that is neither a broken pipe nor a closed queue. -/
def Failure.isPrimary : Failure → Bool
  | .io (.os .pipe) => false
  | .system .pipe => false
  | .queueClosed => false
  | _ => true

theorem Failure.symptom_cases {e : Failure} (h : e.isPrimary = false) :
    e = .queueClosed ∨ e.isBrokenPipe = true := by
  unfold isPrimary at h
  split at h
  · exact .inr rfl
  · exact .inr rfl
  · exact .inl rfl
  · cases h

theorem Failure.isSecondary_eq (e : Failure) : e.isSecondary = !e.isPrimary := by
  unfold isPrimary
  split
  · rfl
  · rfl
  · rfl
  · rename_i hio hsystem hclosed
    cases e with
    | io cause => exact decide_eq_false fun h => hio (congrArg io h)
    | system errno => exact decide_eq_false fun h => hsystem (congrArg system h)
    | queueClosed => exact absurd rfl hclosed
    | _ => rfl

section

variable {r : Report} {reports : List Report} {e : Failure} {es : List Failure}

theorem failures_cons (r : Report) (reports : List Report) :
    failures (r :: reports) = r.failure?.toList ++ failures reports := by
  unfold failures
  cases h : r.failure? with
  | none => rw [List.filterMap_cons_none h, Option.toList_none, List.nil_append]
  | some e => rw [List.filterMap_cons_some h, Option.toList_some, List.singleton_append]

theorem mem_failures : e ∈ failures reports ↔ ∃ r ∈ reports, r.result = .error e := by
  have hone (r : Report) : r.failure? = some e ↔ r.result = .error e := by
    unfold Report.failure?
    cases r.result with
    | ok count => exact ⟨fun h => (by cases h), fun h => (by cases h)⟩
    | error failure =>
      exact ⟨fun h => congrArg _ (Option.some.inj h), fun h => congrArg _ (Except.error.inj h)⟩
  simp only [failures, List.mem_filterMap, hone]

/-! ## What a supervisor knows -/

namespace Watch

/-- The failure held back after some more. -/
def heldAfter (held : Option Failure) (es : List Failure) : Option Failure :=
  es.foldl (fun held e => some (hold held e)) held

theorem heldAfter_broken (h : e.isBrokenPipe = true) : heldAfter (some e) es = some e := by
  induction es with
  | nil => rfl
  | cons e' es ih =>
    have hhold : hold (some e) e' = e := by
      unfold hold
      split
      · rename_i he
        cases he
      · rename_i he
        cases he
        cases h
      · rename_i he
        exact (Option.some.inj he).symm
    rw [heldAfter, List.foldl_cons, hhold]
    exact ih

/-- The first broken pipe takes the place of a closed queue. -/
theorem heldAfter_closed (held : Option Failure) (hheld : held = none ∨ held = some .queueClosed)
    (h : es.find? Failure.isPrimary = none) :
    heldAfter held es =
      (es.find? Failure.isBrokenPipe).or (if es.isEmpty then held else some .queueClosed) := by
  induction es generalizing held with
  | nil => rfl
  | cons e es ih =>
    have hhold : heldAfter held (e :: es) = heldAfter (some e) es := by
      rcases hheld with rfl | rfl <;> rfl
    rw [List.find?_cons] at h
    cases hp : e.isPrimary with
    | true =>
      rw [hp] at h
      cases h
    | false =>
      rw [hp] at h
      rw [hhold, List.find?_cons]
      rcases Failure.symptom_cases hp with rfl | hb
      · rw [ih (some .queueClosed) (.inr rfl) h]
        simp [Failure.isBrokenPipe]
      · rw [heldAfter_broken hb, hb]
        rfl

theorem notes_concat {w₀ w : Watch} (h : reports.foldlM note w₀ = .ok w) (r : Report) :
    (reports ++ [r]).foldlM note w₀ = w.note r := by
  rw [List.foldlM_append, h]
  show [r].foldlM note w = w.note r
  rw [List.foldlM_cons]
  cases w.note r <;> rfl

theorem note_of_success (w : Watch) (h : r.failure? = none) :
    w.note r = .ok ⟨w.done ++ [r.tally], w.deferred⟩ := by
  obtain ⟨stage, result⟩ := r
  cases result with
  | ok count => rfl
  | error e => cases h

theorem note_of_primary (w : Watch) (h : r.failure? = some e) (hp : e.isPrimary = true) :
    w.note r = .error e := by
  obtain ⟨stage, result⟩ := r
  cases result with
  | ok count => cases h
  | error e' =>
    cases h
    simp only [note]
    exact if_neg (by simp [Failure.isSecondary_eq, hp])

theorem note_of_symptom (w : Watch) (h : r.failure? = some e) (hp : e.isPrimary = false) :
    w.note r = .ok ⟨w.done ++ [r.tally], some (hold w.deferred e)⟩ := by
  obtain ⟨stage, result⟩ := r
  cases result with
  | ok count => cases h
  | error e' =>
    cases h
    simp only [note]
    exact if_pos (by simp [Failure.isSecondary_eq, hp])

theorem notes_primary (h : (failures reports).find? Failure.isPrimary = some e) (w : Watch) :
    reports.foldlM note w = .error e := by
  induction reports generalizing w with
  | nil => cases h
  | cons r reports ih =>
    rw [failures_cons] at h
    rw [List.foldlM_cons]
    cases hr : r.failure? with
    | none =>
      rw [hr, Option.toList_none, List.nil_append] at h
      rw [note_of_success w hr]
      exact ih h _
    | some e' =>
      rw [hr, Option.toList_some, List.singleton_append, List.find?_cons] at h
      cases hp : e'.isPrimary with
      | true =>
        rw [hp] at h
        cases h
        rw [note_of_primary w hr hp]
        rfl
      | false =>
        rw [hp] at h
        rw [note_of_symptom w hr hp]
        exact ih h _

theorem notes_secondary (h : (failures reports).find? Failure.isPrimary = none) (w : Watch) :
    reports.foldlM note w =
      .ok ⟨w.done ++ reports.map Report.tally, heldAfter w.deferred (failures reports)⟩ := by
  induction reports generalizing w with
  | nil => rw [List.map_nil, List.append_nil]; rfl
  | cons r reports ih =>
    rw [failures_cons] at h ⊢
    rw [List.foldlM_cons, List.map_cons]
    cases hr : r.failure? with
    | none =>
      rw [hr, Option.toList_none, List.nil_append] at h
      rw [note_of_success w hr, Option.toList_none, List.nil_append]
      refine (ih h _).trans ?_
      rw [List.append_assoc, List.singleton_append]
    | some e =>
      rw [hr, Option.toList_some, List.singleton_append, List.find?_cons] at h
      cases hp : e.isPrimary with
      | true =>
        rw [hp] at h
        cases h
      | false =>
        rw [hp] at h
        rw [note_of_symptom w hr hp, Option.toList_some, List.singleton_append]
        refine (ih h _).trans ?_
        rw [List.append_assoc, List.singleton_append]
        rfl

end Watch

/-! ## The outcome of some reports -/

/-- The failure that a run is to report: the first that is neither a broken pipe nor a closed queue,
else the first broken pipe, else a closed queue. -/
def foremost? (es : List Failure) : Option Failure :=
  (es.find? Failure.isPrimary).or ((es.find? Failure.isBrokenPipe).or
    (if es.isEmpty then none else some .queueClosed))

theorem foremost?_eq_none_iff : foremost? es = none ↔ es = [] := by
  unfold foremost?
  rw [Option.or_eq_none_iff, Option.or_eq_none_iff]
  constructor
  · rintro ⟨-, -, h⟩
    split_ifs at h with he
    exact List.isEmpty_iff.mp he
  · rintro rfl
    exact ⟨rfl, rfl, rfl⟩

theorem supervise_of_foremost (h : foremost? (failures reports) = some e) :
    supervise reports = .error e := by
  unfold supervise
  cases hp : (failures reports).find? Failure.isPrimary with
  | some e' =>
    rw [foremost?, hp] at h
    cases h
    rw [Watch.notes_primary hp]
    rfl
  | none =>
    rw [foremost?, hp, Option.none_or, ← Watch.heldAfter_closed none (.inl rfl) hp] at h
    rw [Watch.notes_secondary hp]
    show Watch.conclude ⟨_, Watch.heldAfter none (failures reports)⟩ = .error e
    rw [Watch.conclude, h]

theorem supervise_of_no_failure (h : failures reports = []) :
    supervise reports = .ok (reports.map Report.tally) := by
  unfold supervise
  rw [Watch.notes_secondary (by rw [h]; rfl), h]
  rfl

end

/-! ## Verdicts -/

namespace Watch

/-- The outcome for a supervisor of so many stages that has heard these reports; `none` while it
waits for more. -/
def verdict? (stages : Nat) (reports : List Report) :
    Option (Except Failure (List (Stage × Nat))) :=
  match reports.foldlM note {} with
  | .error failure => some (.error failure)
  | .ok w => if stages ≤ w.done.length then some w.conclude else none

section

variable {stages : Nat} {reports : List Report} {w w' : Watch} {failure : Failure}
  {outcome : Except Failure (List (Stage × Nat))}

theorem supervise_of_verdict? (h : verdict? stages reports = some outcome) :
    supervise reports = outcome := by
  unfold verdict? at h
  unfold supervise
  cases hw : reports.foldlM note {} with
  | error failure =>
    simp only [hw] at h
    cases h
    rfl
  | ok w =>
    simp only [hw] at h
    split_ifs at h
    cases h
    rfl

theorem length_notes (h : reports.foldlM note w = .ok w') :
    w'.done.length = w.done.length + reports.length := by
  cases hp : (failures reports).find? Failure.isPrimary with
  | some e =>
    rw [notes_primary hp] at h
    cases h
  | none =>
    rw [notes_secondary hp] at h
    cases h
    rw [List.length_append, List.length_map]

theorem verdict?_of_notes (h : reports.foldlM note {} = .ok w) (hall : stages ≤ reports.length) :
    verdict? stages reports = some w.conclude := by
  have hlen := length_notes h
  unfold verdict?
  rw [h]
  refine if_pos ?_
  simp only [List.length_nil] at hlen
  omega

/-- Closed queues are held back until the failure behind them is reported. -/
theorem notes_symptoms (hfailure : failure.isPrimary = true)
    (hall : ∀ r ∈ reports, r.result = .error failure ∨ r.result = .error .queueClosed) :
    ((∃ r ∈ reports, r.result = .error failure) ∧ reports.foldlM note w = .error failure) ∨
      ((∀ r ∈ reports, r.result ≠ .error failure) ∧ ∃ w', reports.foldlM note w = .ok w') := by
  cases hp : (failures reports).find? Failure.isPrimary with
  | some e =>
    obtain ⟨r, hr, he⟩ := mem_failures.mp (List.mem_of_find?_eq_some hp)
    have hprimary := List.find?_some hp
    rcases hall r hr with hr' | hr' <;> cases he.symm.trans hr'
    · exact .inl ⟨⟨r, hr, he⟩, notes_primary hp w⟩
    · cases hprimary
  | none =>
    refine .inr ⟨fun r hr he => ?_, _, notes_secondary hp w⟩
    exact List.find?_eq_none.mp hp failure (mem_failures.mpr ⟨r, hr, he⟩) hfailure

/-- **A failure is told from its symptoms**, in whatever order they are reported. -/
theorem verdict?_symptoms (hfailure : failure.isPrimary = true)
    (hall : ∀ r ∈ reports, r.result = .error failure ∨ r.result = .error .queueClosed)
    (stages : Nat) :
    ((∃ r ∈ reports, r.result = .error failure) →
        verdict? stages reports = some (.error failure)) ∧
      ((∀ r ∈ reports, r.result ≠ .error failure) → reports.length < stages →
        verdict? stages reports = none) := by
  unfold verdict?
  rcases notes_symptoms (w := {}) hfailure hall with ⟨⟨r, hr, he⟩, hfold⟩ | ⟨hnone, w', hfold⟩
  · rw [hfold]
    exact ⟨fun _ => rfl, fun hnone => absurd he (hnone r hr)⟩
  · rw [hfold]
    refine ⟨fun ⟨r, hr, he⟩ => absurd he (hnone r hr), fun _ hlt => if_neg ?_⟩
    have hlen := length_notes hfold
    simp only [List.length_nil] at hlen
    omega

end

end Watch

/-! ## Runs under a supervisor -/

namespace Schedule

variable {σ : Type} {stages : Stages σ} {n : Nat} {reports : List Report} {s s' : Schedule σ}
  {counts : List (Stage × Nat)}

/-- What holds of a run in which `n` stages are to report, and the reports were `reports`. -/
structure Inv (n : Nat) (reports : List Report) (s : Schedule σ) : Prop where
  watch : reports.foldlM Watch.note {} = .ok s.watch
  awaited : s.awaited + reports.length = n
  deadline : s.deadline.isSome = true → s.watch.deferred.isSome = true

theorem inv_start (state : σ) (n : Nat) : Inv n [] { state, awaited := n } :=
  ⟨rfl, Nat.add_zero n, fun h => by cases h⟩

theorem inv_note {r : Report} (h : s.Inv n reports) (hs : s.awaited ≠ 0)
    (hn : s.note r = .ok s') : s'.Inv n (reports ++ [r]) ∧ s'.state = s.state := by
  unfold note at hn
  cases hw : s.watch.note r with
  | error failure =>
    rw [hw] at hn
    cases hn
  | ok watch =>
    rw [hw] at hn
    cases hn
    refine ⟨⟨?_, ?_, fun hd => ?_⟩, rfl⟩
    · rw [Watch.notes_concat h.watch, hw]
    · have hawaited := h.awaited
      rw [List.length_append, List.length_singleton]
      show s.awaited - 1 + (reports.length + 1) = n
      omega
    · by_contra hdeferred
      simp only [if_neg hdeferred] at hd
      cases hd

theorem verdict?_of_note {r : Report} {failure : Failure} (h : s.Inv n reports)
    (hn : s.note r = .error failure) :
    Watch.verdict? n (reports ++ [r]) = some (.error failure) := by
  unfold note at hn
  cases hw : s.watch.note r with
  | ok watch =>
    rw [hw] at hn
    cases hn
  | error failure =>
    rw [hw] at hn
    cases hn
    rw [Watch.verdict?, Watch.notes_concat h.watch, hw]

theorem Inv.conclude_ne_ok (h : s.Inv n reports) {deadline : Nat}
    (hd : s.deadline = some deadline) :
    s.watch.conclude ≠ .ok counts := by
  obtain ⟨failure, hf⟩ := Option.isSome_iff_exists.mp (h.deadline (by rw [hd]; rfl))
  rw [Watch.conclude, hf]
  intro hok
  cases hok

/-- **A run that ends** is a sequence of steps, after which the outcome is the verdict on the
reports so far, or the supervisor has waited too long: `P` holds of the states on the way and the
reports. -/
theorem run_ended (P : σ → List Report → Prop)
    (hstep : ∀ now state state' report? reports, P state reports →
      stages.step now state = some (state', report?) → P state' (reports ++ report?.toList))
    {fuel : Nat} {outcome : Outcome} (h : s.Inv n reports) (hp : P s.state reports)
    (hrun : run stages fuel s = some (outcome, s')) :
    ∃ all, P s'.state all ∧ all.length ≤ n ∧
      (Watch.verdict? n all = some outcome ∨
        s'.deadline = some s'.now ∧ ∀ counts, outcome ≠ .ok counts) := by
  induction fuel generalizing s reports with
  | zero => cases hrun
  | succ fuel ih =>
    rw [run] at hrun
    have hawaited := h.awaited
    by_cases hzero : s.awaited = 0
    · rw [if_pos hzero] at hrun
      obtain ⟨rfl, rfl⟩ := Prod.mk.inj (Option.some.inj hrun)
      exact ⟨reports, hp, by omega, .inl (Watch.verdict?_of_notes h.watch (by omega))⟩
    rw [if_neg hzero] at hrun
    have hlater (now : Nat) : Inv n reports { s with now } := ⟨h.watch, h.awaited, h.deadline⟩
    split at hrun
    · rename_i state hs
      have hp' := hstep _ _ _ _ _ hp hs
      rw [Option.toList_none, List.append_nil] at hp'
      have hinv : Inv n reports { s with state } := ⟨h.watch, h.awaited, h.deadline⟩
      exact ih hinv hp' hrun
    · rename_i state report hs
      have hp' := hstep _ _ _ _ _ hp hs
      have hinv : Inv n reports { s with state } := ⟨h.watch, h.awaited, h.deadline⟩
      cases hn : note { s with state } report with
      | error failure =>
        simp only [hn] at hrun
        obtain ⟨rfl, rfl⟩ := Prod.mk.inj (Option.some.inj hrun)
        refine ⟨_, hp', ?_, .inl (verdict?_of_note hinv hn)⟩
        rw [Option.toList_some, List.length_append, List.length_singleton]
        omega
      | ok next =>
        simp only [hn] at hrun
        obtain ⟨hnext, hstate⟩ := inv_note hinv hzero hn
        exact ih hnext (hstate ▸ hp') hrun
    · split at hrun
      · rename_i later deadline _ hd
        split_ifs at hrun
        · obtain ⟨rfl, rfl⟩ := Prod.mk.inj (Option.some.inj hrun)
          exact ⟨reports, hp, by omega, .inr ⟨hd, fun _ => h.conclude_ne_ok hd⟩⟩
        · exact ih (hlater later) hp hrun
      · rename_i later _ _
        exact ih (hlater later) hp hrun
      · rename_i deadline _ hd
        obtain ⟨rfl, rfl⟩ := Prod.mk.inj (Option.some.inj hrun)
        exact ⟨reports, hp, by omega, .inr ⟨hd, fun _ => h.conclude_ne_ok hd⟩⟩
      · cases hrun

/-- **A run that succeeds** is a sequence of steps in which all stages have reported: `P` holds of
the states on the way and the reports so far. -/
theorem run_ok (P : σ → List Report → Prop)
    (hstep : ∀ now state state' report? reports, P state reports →
      stages.step now state = some (state', report?) → P state' (reports ++ report?.toList))
    {fuel : Nat} (h : s.Inv n reports) (hp : P s.state reports)
    (hrun : run stages fuel s = some (.ok counts, s')) :
    ∃ all, P s'.state all ∧ supervise all = .ok counts ∧ all.length = n := by
  obtain ⟨all, hall, hle, hverdict | ⟨-, hne⟩⟩ := run_ended P hstep h hp hrun
  · refine ⟨all, hall, Watch.supervise_of_verdict? hverdict, Nat.le_antisymm hle ?_⟩
    unfold Watch.verdict? at hverdict
    cases hw : all.foldlM Watch.note {} with
    | error failure =>
      simp only [hw] at hverdict
      cases hverdict
    | ok w =>
      simp only [hw] at hverdict
      have hlen := Watch.length_notes hw
      split_ifs at hverdict with hn
      simp only [List.length_nil] at hlen
      omega
  · exact absurd rfl (hne counts)

end Schedule

end Coprocess
