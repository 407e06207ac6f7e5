import Coprocess.Pool.Reaper
import Mathlib.Data.List.Basic
import Mathlib.Tactic.SplitIfs

/-!
# Waiting for all children

* `Reaper.exists_swapRemove`: taking a child out of the list keeps those before it in place, and
  those behind it behind;
* `Reaper.Move`, `Reaper.moves`: all that a step can do;
* `Reaper.Inv`: a child that a reaper does not hold any more has succeeded;
* **`Reaper.step_inv`**: so it is after every step.
-/

namespace Coprocess

namespace Reaper

/-! ## Taking a child out -/

section

variable {l : List Nat} {place x y : Nat}

/-- A removal by swapping keeps what stands before the place, and permutes what stands behind it. -/
theorem exists_swapRemove (hp : place < l.length) :
    ∃ rest, swapRemove l place = l.take place ++ rest ∧ rest.Perm (l.drop (place + 1)) := by
  obtain ⟨front, last, rfl⟩ := List.eq_nil_or_concat' l |>.resolve_left (by rintro rfl; cases hp)
  have hlast : (front ++ [last]).getLast? = some last := List.getLast?_concat ..
  refine ⟨(last :: (front ++ [last]).drop (place + 1)).dropLast, ?_, ?_⟩
  · unfold swapRemove
    simp only [hlast]
    rw [List.set_eq_take_append_cons_drop, if_pos hp]
    exact List.dropLast_append_cons
  · rw [List.length_append, List.length_singleton] at hp
    rcases Nat.lt_succ_iff_lt_or_eq.mp hp with hp | rfl
    · rw [List.drop_append_of_le_length hp, ← List.cons_append, List.dropLast_concat]
      exact (List.perm_append_singleton last _).symm
    · rw [List.drop_of_length_le (List.length_append ▸ Nat.le_refl _)]
      exact .nil

theorem mem_swapRemove (hy : l[place]? = some y) (hx : x ∈ l) (hne : x ≠ y) :
    x ∈ swapRemove l place := by
  obtain ⟨rest, hrest, hperm⟩ := exists_swapRemove (List.getElem?_eq_some_iff.mp hy).1
  rw [← List.take_append_drop place l, List.drop_eq_getElem?_toList_append, hy] at hx
  rw [hrest]
  rcases List.mem_append.mp hx with hx | hx
  · exact List.mem_append_left rest hx
  · exact List.mem_append_right _ (hperm.mem_iff.mpr (List.mem_of_ne_of_mem hne hx))

end

/-! ## Steps -/

variable {n now : Nat} {status status' : Nat → Except Errno (Option Termination)} {r r' : Reaper}

/-- All that a step of a reaper can do. -/
inductive Move (now : Nat) (status : Nat → Except Errno (Option Termination)) (r : Reaper) :
    Reaper → Prop
  | wake {t : Nat} (hw : r.wakeAt = some t) (ht : t ≤ now) : Move now status r r.beginPass
  | look {child : Nat} (hw : r.wakeAt = none) (hc : r.held[r.index]? = some child) :
    Move now status r (r.look child (status child))
  | again (hw : r.wakeAt = none) (hend : r.held.length ≤ r.index) :
    Move now status r r.beginPass
  | sleep (hw : r.wakeAt = none) (hend : r.held.length ≤ r.index) (hne : r.held ≠ []) :
    Move now status r { r with wakeAt := some (now + pauseMilliseconds) }
  | finish (hw : r.wakeAt = none) (hheld : r.held = []) :
    Move now status r { r with result? := some (.ok r.reaped) }

theorem going_of_step (h : r.step now status = some r') : r.result? = none := by
  cases hr : r.result? with
  | none => rfl
  | some result =>
    rw [step, hr] at h
    cases h

theorem step_look (hgo : r.result? = none) (hw : r.wakeAt = none)
    {child : Nat} (hc : r.held[r.index]? = some child) :
    r.step now status = some (r.look child (status child)) := by
  simp [step, hgo, hw, hc]

theorem step_wake (hgo : r.result? = none) {t : Nat} (hw : r.wakeAt = some t) :
    r.step now status = if now < t then none else some r.beginPass := by
  simp [step, hgo, hw]

theorem step_end (hgo : r.result? = none) (hw : r.wakeAt = none)
    (hend : r.held.length ≤ r.index) :
    r.step now status =
      if r.held.isEmpty then some { r with result? := some (.ok r.reaped) }
      else if r.progressed then some r.beginPass
      else some { r with wakeAt := some (now + pauseMilliseconds) } := by
  simp [step, hgo, hw, List.getElem?_eq_none hend]

theorem moves (h : r.step now status = some r') : r.Move now status r' := by
  have hgo := going_of_step h
  cases hw : r.wakeAt with
  | some t =>
    rw [step_wake hgo hw] at h
    split_ifs at h with hearly
    cases h
    exact .wake hw (Nat.le_of_not_lt hearly)
  | none =>
    rcases Nat.lt_or_ge r.index r.held.length with hlt | hend
    · have hc := List.getElem?_eq_getElem hlt
      rw [step_look hgo hw hc] at h
      cases h
      exact .look hw hc
    · rw [step_end hgo hw hend] at h
      split_ifs at h with hempty hprogressed <;> cases h
      · exact .finish hw (List.isEmpty_iff.mp hempty)
      · exact .again hw hend
      · exact .sleep hw hend fun hnil => hempty (List.isEmpty_iff.mpr hnil)

/-! ## What a reaper knows -/

/-- What holds of a reaper of `n` children. -/
structure Inv (n : Nat) (status : Nat → Except Errno (Option Termination)) (r : Reaper) : Prop where
  reaped : ∀ w < n, w ∈ r.held ∨ ∃ reason, status w = .ok (some reason) ∧ reason.isSuccess = true
  result : ∀ k, r.result? = some (.ok k) → r.held = []

theorem inv_start (n : Nat) (status : Nat → Except Errno (Option Termination)) :
    Inv n status { held := List.range n } :=
  ⟨fun _ hw => .inl (List.mem_range.mpr hw), fun _ h => by cases h⟩

theorem Inv.mono (h : r.Inv n status)
    (hs : ∀ w reason, status w = .ok (some reason) → status' w = .ok (some reason)) :
    r.Inv n status' := by
  refine ⟨fun w hw => ?_, h.result⟩
  rcases h.reaped w hw with hheld | ⟨reason, hr, hok⟩
  · exact .inl hheld
  · exact .inr ⟨reason, hs w reason hr, hok⟩

/-- **A child that is not held any more has succeeded.** -/
theorem step_inv (h : r.step now status = some r') (hinv : r.Inv n status) : r'.Inv n status := by
  have hnone (k : Nat) : r.result? ≠ some (.ok k) := by
    rw [going_of_step h]
    intro hk
    cases hk
  cases moves h with
  | wake | again | sleep => exact ⟨hinv.reaped, fun k hk => absurd hk (hnone k)⟩
  | finish _ hheld => exact ⟨hinv.reaped, fun _ _ => hheld⟩
  | @look child _ hc =>
    unfold look
    rcases hs : status child with errno | _ | reason
    · exact ⟨hinv.reaped, fun k hk => by cases hk⟩
    · exact ⟨hinv.reaped, fun k hk => absurd hk (hnone k)⟩
    · by_cases hok : reason.isSuccess = true
      · simp only [hok, if_true]
        refine ⟨fun w hw => ?_, fun k hk => absurd hk (hnone k)⟩
        by_cases hchild : w = child
        · exact .inr ⟨reason, by rw [hchild, hs], hok⟩
        · exact (hinv.reaped w hw).imp_left fun hm => mem_swapRemove hc hm hchild
      · simp only [hok]
        exact ⟨hinv.reaped, fun k hk => by cases hk⟩

theorem Inv.of_ok (h : r.Inv n status) {k : Nat} (hr : r.result? = some (.ok k)) :
    ∀ w < n, ∃ reason, status w = .ok (some reason) ∧ reason.isSuccess = true := by
  intro w hw
  rcases h.reaped w hw with hheld | hok
  · rw [h.result k hr] at hheld
    exact absurd hheld List.not_mem_nil
  · exact hok

end Reaper

end Coprocess
