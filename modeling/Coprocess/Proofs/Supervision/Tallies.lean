import Coprocess.Pool.Run
import Coprocess.Proofs.Supervision.Reports
import Mathlib.Algebra.BigOperators.Group.List.Basic
import Mathlib.Algebra.Ring.Nat
import Mathlib.Data.List.Basic

/-!
# What the reports of a run say

* `Report.ofCount`, **`supervise_ok`**: a supervisor that succeeds has heard of successes alone;
* `Report.count`, `countOf_perm`: the counts of the stages of one kind, whatever the order of their
  reports;
* `Pool.sum_counts`, `Pool.results_ok`: the reports of stages of one kind;
* `Pool.join_ok`: what a pool that has succeeded says.
-/

namespace Coprocess

/-! ## Reports of success -/

/-- A report of success. -/
def Report.ofCount (c : Stage × Nat) : Report := ⟨c.1, .ok c.2⟩

theorem map_ofCount_tally {reports : List Report} (h : failures reports = []) :
    (reports.map Report.tally).map Report.ofCount = reports := by
  rw [List.map_map]
  refine (List.map_congr_left fun r hr => ?_).trans (List.map_id reports)
  have hnone := List.filterMap_eq_nil_iff.mp h r hr
  obtain ⟨stage, result⟩ := r
  cases result with
  | ok count => rfl
  | error e => cases hnone

/-- **A supervisor that succeeds has heard of successes alone.** -/
theorem supervise_ok {reports : List Report} {counts : List (Stage × Nat)}
    (h : supervise reports = .ok counts) : reports = counts.map .ofCount := by
  cases hf : foremost? (failures reports) with
  | some e =>
    rw [supervise_of_foremost hf] at h
    cases h
  | none =>
    have hnil := foremost?_eq_none_iff.mp hf
    rw [supervise_of_no_failure hnil] at h
    cases h
    exact (map_ofCount_tally hnil).symm

/-! ## Counts -/

/-- The count of a result. -/
def countIn : Option (Except Failure Nat) → Nat
  | some (.ok n) => n
  | _ => 0

/-- What a report adds to the count of the stages of one kind. -/
def Report.count (stage : Stage) (r : Report) : Nat :=
  if r.stage = stage then countIn (some r.result) else 0

theorem Report.count_ofCount (stage : Stage) (c : Stage × Nat) :
    (Report.ofCount c).count stage = if c.1 = stage then c.2 else 0 := rfl

theorem countOf_eq (counts : List (Stage × Nat)) (stage : Stage) :
    countOf counts stage = ((counts.map Report.ofCount).map (Report.count stage)).sum := by
  have hfold (start : Nat) : (counts.filter (·.1 = stage)).foldl (· + ·.2) start =
      start + ((counts.map Report.ofCount).map (Report.count stage)).sum := by
    induction counts generalizing start with
    | nil => rfl
    | cons c counts ih =>
      rw [List.map_cons, List.map_cons, List.sum_cons, List.filter_cons, Report.count_ofCount]
      by_cases hc : c.1 = stage
      · rw [if_pos (decide_eq_true hc), List.foldl_cons, ih, if_pos hc, Nat.add_assoc]
      · rw [if_neg (by simpa using hc), ih, if_neg hc, Nat.zero_add]
  rw [countOf, hfold, Nat.zero_add]

theorem countOf_perm {counts : List (Stage × Nat)} {reports : List Report}
    (h : (counts.map Report.ofCount).Perm reports) (stage : Stage) :
    countOf counts stage = (reports.map (Report.count stage)).sum := by
  rw [countOf_eq]
  exact (h.map _).sum_eq

namespace Pool

section

variable {β : Type} {l : List β} {result? : β → Option (Except Failure Nat)}

theorem sum_counts (own stage : Stage) (l : List β) (result? : β → Option (Except Failure Nat)) :
    ((l.filterMap fun b => reportOf own (result? b)).map (Report.count stage)).sum =
      if own = stage then (l.map fun b => countIn (result? b)).sum else 0 := by
  induction l with
  | nil => exact (ite_self 0).symm
  | cons b l ih =>
    rw [List.filterMap_cons, List.map_cons, List.sum_cons]
    cases hb : result? b with
    | none =>
      rw [reportOf, Option.map_none]
      simp only [ih, countIn, Nat.zero_add]
    | some result =>
      rw [reportOf, Option.map_some]
      simp only [List.map_cons, List.sum_cons, ih, Report.count]
      split_ifs <;> rfl

theorem results_ok {own : Stage}
    (hlen : (l.filterMap fun b => reportOf own (result? b)).length = l.length)
    (hok : ∀ r ∈ l.filterMap fun b => reportOf own (result? b), ∃ n, r.result = .ok n) :
    ∀ b ∈ l, ∃ n, result? b = some (.ok n) := by
  intro b hb
  have hsome := List.filterMap_length_eq_length.mp hlen b hb
  obtain ⟨r, hr⟩ := Option.isSome_iff_exists.mp hsome
  obtain ⟨n, hn⟩ := hok r (List.mem_filterMap.mpr ⟨b, hb, hr⟩)
  obtain ⟨result, hresult, rfl⟩ := Option.map_eq_some_iff.mp hr
  exact ⟨n, hresult.trans (congrArg some hn)⟩

end

theorem join_ok {s : PoolSettings} {outcome : Schedule.Outcome} {outlet o : Outlet}
    {report : PoolReport} (h : s.join outcome outlet = (.ok report, o)) :
    ∃ counts, outcome = .ok counts ∧
      report = ⟨s.workers, countOf counts .input, countOf counts .workerReader⟩ ∧
      o.written = outlet.written := by
  unfold PoolSettings.join at h
  cases outcome with
  | error failure => cases h
  | ok counts =>
    unfold Outlet.flush at h
    cases hf : outlet.flushFails with
    | true =>
      simp only [hf, if_true] at h
      cases h
    | false =>
      simp only [hf, Bool.false_eq_true, if_false] at h
      cases h
      exact ⟨counts, rfl, rfl, rfl⟩

end Pool

end Coprocess
