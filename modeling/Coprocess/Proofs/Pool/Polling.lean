import Coprocess.Proofs.Pool.Reaping
import Mathlib.Order.Monotone.Defs
import Mathlib.Order.Nat

/-!
# Reapers that poll

* `WaitStatus.Failed`, `WaitStatus.failed_iff`, `WaitStatus.succeeded_iff`: what tells that a child
  has failed, or has succeeded;
* `Fates`, `Clock`: how some children fare, and when a reaper takes its steps;
* `Fates.exists_limit`: some time, all children have ended that end at all;
* `Reaper.look_cases`: all that a look can do;
* `Reaper.Runs`, `exists_of_rank`: a reaper at work, and how it comes to something;
* `Reaper.Stale`: only children that do not end are passed over;
* **`Reaper.exists_result`**: a reaper returns unless it holds only children that do not end.
-/

namespace Coprocess

/-! ## How children end -/

/-- A child that is gone and did not succeed: it exited with another code than 0, or a signal ended
it. -/
inductive WaitStatus.Failed : WaitStatus → Termination → Prop
  | exited {code : Int} (h : code ≠ 0) : Failed (.exited code) (.exited code)
  | signaled (signal : NamedSignal) (coreDumped : Bool) :
    Failed (.signaled signal coreDumped) (.signaled signal coreDumped)

theorem WaitStatus.failed_iff {status : WaitStatus} {reason : Termination} :
    status.Failed reason ↔ status.termination? = some reason ∧ reason.isSuccess = false := by
  constructor
  · rintro (h | _)
    · exact ⟨rfl, decide_eq_false h⟩
    · exact ⟨rfl, rfl⟩
  · rintro ⟨h, hs⟩
    cases status <;> cases h
    · exact .exited (of_decide_eq_false hs)
    · exact .signaled _ _

theorem WaitStatus.succeeded_iff {status : WaitStatus} :
    status = .exited 0 ↔
      ∃ reason, status.termination? = some reason ∧ reason.isSuccess = true := by
  constructor
  · rintro rfl
    exact ⟨_, rfl, rfl⟩
  · rintro ⟨reason, h, hs⟩
    cases status <;> cases h
    · exact congrArg exited (of_decide_eq_true hs)
    · cases hs

/-- How some children fare. -/
structure Fates where
  /-- What waiting for a child answers at a time. -/
  status : Nat → Nat → WaitStatus
  /-- A child that is gone stays so. -/
  lasts : ∀ {child now later : Nat} {reason : Termination}, now ≤ later →
    (status now child).termination? = some reason →
    (status later child).termination? = some reason

namespace Fates

/-- How a child has ended at a time. -/
def answer (fates : Fates) (now child : Nat) : Option Termination :=
  (fates.status now child).termination?

/-- What looking for a child comes to at a time. -/
def look (fates : Fates) (now child : Nat) : Except Errno (Option Termination) :=
  .ok (fates.answer now child)

variable (fates : Fates) {now later child : Nat} {reason reason' : Termination}

theorem look_eq_ok_iff {answer : Option Termination} :
    fates.look now child = .ok answer ↔ fates.answer now child = answer := by
  rw [look, Except.ok.injEq]

theorem answer_of_le (hl : now ≤ later) (h : fates.answer now child = some reason) :
    fates.answer later child = some reason :=
  fates.lasts hl h

theorem answer_unique (h : fates.answer now child = some reason)
    (h' : fates.answer later child = some reason') : reason = reason' := by
  rcases Nat.le_total now later with hl | hl
  · exact Option.some.inj ((fates.answer_of_le hl h).symm.trans h')
  · exact Option.some.inj (h.symm.trans (fates.answer_of_le hl h'))

theorem not_failed (h : fates.status now child = .exited 0) :
    ¬ (fates.status later child).Failed reason := by
  intro hfailed
  obtain ⟨_, ha, hok⟩ := WaitStatus.succeeded_iff.mp h
  obtain ⟨ha', hbad⟩ := WaitStatus.failed_iff.mp hfailed
  rw [fates.answer_unique ha ha', hbad] at hok
  cases hok

/-- Some time, all children have ended that end at all. -/
theorem exists_limit (n : Nat) :
    ∃ limit, ∀ child < n, ∀ t reason, fates.answer t child = some reason →
      fates.answer limit child = some reason := by
  induction n with
  | zero => exact ⟨0, fun _ h => absurd h (Nat.not_lt_zero _)⟩
  | succ n ih =>
    obtain ⟨limit, hlimit⟩ := ih
    obtain ⟨last, hlast⟩ : ∃ last, ∀ t reason, fates.answer t n = some reason →
        fates.answer last n = some reason := by
      by_cases h : ∃ last reason, fates.answer last n = some reason
      · obtain ⟨last, reason, hlast⟩ := h
        exact ⟨last, fun t _ ht => fates.answer_unique hlast ht ▸ hlast⟩
      · exact ⟨0, fun t reason ht => absurd ⟨t, reason, ht⟩ h⟩
    refine ⟨max limit last, fun child hc t reason ht => ?_⟩
    rcases Nat.lt_succ_iff_lt_or_eq.mp hc with hc | rfl
    · exact fates.answer_of_le (Nat.le_max_left ..) (hlimit child hc t reason ht)
    · exact fates.answer_of_le (Nat.le_max_right ..) (hlast t reason ht)

end Fates

/-- The times at which a reaper takes its steps. -/
structure Clock where
  time : Nat → Nat
  monotone : Monotone time
  unbounded : ∀ t, ∃ k, t ≤ time k

/-! ## Looks -/

namespace Reaper

variable {r : Reaper} {child : Nat}

theorem length_passed (hc : r.held[r.index]? = some child) :
    (r.held.take r.index).length = r.index :=
  List.length_take_of_le (Nat.le_of_lt (List.getElem?_eq_some_iff.mp hc).1)

/-- A look passes over a child that has not ended, lets go of one that succeeded, or ends the work
with one that failed. -/
theorem look_cases (hc : r.held[r.index]? = some child) (fates : Fates) (now : Nat) :
    (fates.answer now child = none ∧
        r.look child (fates.look now child) = { r with index := r.index + 1 }) ∨
      (fates.answer now child = some (.exited 0) ∧ ∃ rest, rest.Perm (r.held.drop (r.index + 1)) ∧
        r.look child (fates.look now child) = { r with
          held := r.held.take r.index ++ rest, reaped := r.reaped + 1, progressed := true }) ∨
      ∃ reason, fates.answer now child = some reason ∧ reason ≠ .exited 0 ∧
        r.look child (fates.look now child) =
          { r with result? := some (.error (.child child reason)) } := by
  unfold Fates.look
  cases fates.answer now child with
  | none => exact .inl ⟨rfl, rfl⟩
  | some reason =>
    by_cases hok : reason.isSuccess = true
    · obtain ⟨rest, hswap, hperm⟩ := exists_swapRemove (List.getElem?_eq_some_iff.mp hc).1
      refine .inr (.inl ⟨congrArg some (Termination.isSuccess_iff.mp hok), rest, hperm, ?_⟩)
      simp only [look, hok, if_true, hswap]
    · refine .inr (.inr ⟨reason, rfl, fun he => hok (Termination.isSuccess_iff.mpr he), ?_⟩)
      simp only [look, hok]
      rfl

end Reaper

/-! ## Reapers that return -/

/-- What goes on as long as a rank falls, until something is reached. -/
theorem exists_of_rank {P Q : Nat → Prop} (rank : Nat → Nat) {k : Nat} (hk : P k)
    (hstep : ∀ j, k ≤ j → P j → ¬ Q j → P (j + 1) ∧ rank (j + 1) < rank j) :
    ∃ j, k ≤ j ∧ P j ∧ Q j := by
  obtain ⟨m, hm⟩ : ∃ m, rank k = m := ⟨_, rfl⟩
  induction m using Nat.strong_induction_on generalizing k with
  | _ m ih =>
    by_cases hq : Q k
    · exact ⟨k, Nat.le_refl k, hk, hq⟩
    · obtain ⟨hnext, hlt⟩ := hstep k (Nat.le_refl k) hk hq
      obtain ⟨j, hj, hp, hq⟩ := ih (rank (k + 1)) (hm ▸ hlt) hnext
        (fun j hj => hstep j (Nat.le_of_succ_le hj)) rfl
      exact ⟨j, Nat.le_of_succ_le hj, hp, hq⟩

namespace Reaper

/-- The states of a reaper that takes its steps at the times of a clock. -/
def Runs (fates : Fates) (clock : Clock) (r : Nat → Reaper) : Prop :=
  ∀ k, r (k + 1) = ((r k).step (clock.time k) (fates.look (clock.time k))).getD (r k)

variable {fates : Fates} {clock : Clock} {r : Nat → Reaper} {k limit : Nat}

theorem exists_wake (hr : Runs fates clock r) (hgo : ∀ k, (r k).result? = none) {t : Nat}
    (hw : (r k).wakeAt = some t) : ∃ j, k ≤ j ∧ (r j).wakeAt = none ∧ (r j).index = 0 := by
  obtain ⟨last, hlast⟩ := clock.unbounded t
  have hstep : ∀ j, k ≤ j → (r j).wakeAt = some t → ¬ t ≤ clock.time j →
      (r (j + 1)).wakeAt = some t ∧ last - (j + 1) < last - j := by
    intro j _ hw hearly
    have hlt : j < last := by
      by_contra hge
      exact hearly (Nat.le_trans hlast (clock.monotone (Nat.le_of_not_lt hge)))
    refine ⟨?_, by omega⟩
    rw [hr, step_wake (hgo j) hw, if_pos (Nat.lt_of_not_le hearly)]
    exact hw
  obtain ⟨j, hj, hw, hdue⟩ := exists_of_rank (last - ·) hw hstep
  have hnext : r (j + 1) = (r j).beginPass := by
    rw [hr, step_wake (hgo j) hw, if_neg (Nat.not_lt_of_le hdue)]
    rfl
  exact ⟨j + 1, Nat.le_succ_of_le hj, by rw [hnext]; rfl, by rw [hnext]; rfl⟩

/-- A pass comes to its end, where `S` holds if every look keeps it. -/
theorem exists_pass_end {S : Reaper → Prop} (hr : Runs fates clock r)
    (hgo : ∀ k, (r k).result? = none) (hw : (r k).wakeAt = none) (hs : S (r k))
    (hlook : ∀ j, k ≤ j → S (r j) → ∀ child, (r j).held[(r j).index]? = some child →
      r (j + 1) = (r j).look child (fates.look (clock.time j) child) → S (r (j + 1))) :
    ∃ j, k ≤ j ∧ (r j).wakeAt = none ∧ (r j).held.length ≤ (r j).index ∧ S (r j) := by
  have hstep : ∀ j, k ≤ j → (r j).wakeAt = none ∧ S (r j) → ¬ (r j).held.length ≤ (r j).index →
      ((r (j + 1)).wakeAt = none ∧ S (r (j + 1))) ∧
        (r (j + 1)).held.length - (r (j + 1)).index < (r j).held.length - (r j).index := by
    rintro j hj ⟨hw, hs⟩ hend
    have hlt := Nat.lt_of_not_le hend
    obtain ⟨child, hc⟩ : ∃ child, (r j).held[(r j).index]? = some child :=
      ⟨_, List.getElem?_eq_getElem hlt⟩
    have hnext : r (j + 1) = (r j).look child (fates.look (clock.time j) child) := by
      rw [hr, step_look (hgo j) hw hc]
      rfl
    have hgoing := hgo (j + 1)
    refine and_right_comm.mp ⟨?_, hlook j hj hs child hc hnext⟩
    rw [hnext] at hgoing ⊢
    rcases look_cases hc fates (clock.time j) with
      ⟨-, he⟩ | ⟨-, rest, hperm, he⟩ | ⟨reason, -, -, he⟩
    · rw [he]
      exact ⟨hw, Nat.sub_lt_sub_left hlt (Nat.lt_succ_self _)⟩
    · rw [he]
      refine ⟨hw, ?_⟩
      have hrest := hperm.length_eq
      rw [List.length_drop] at hrest
      show ((r j).held.take (r j).index ++ rest).length - (r j).index < _
      rw [List.length_append, length_passed hc]
      omega
    · rw [he] at hgoing
      cases hgoing
  obtain ⟨j, hj, ⟨hw, hs⟩, hend⟩ :=
    exists_of_rank (fun j => (r j).held.length - (r j).index) ⟨hw, hs⟩ hstep
  exact ⟨j, hj, hw, hend, hs⟩

theorem exists_pass_start (hr : Runs fates clock r) (hgo : ∀ k, (r k).result? = none) (k : Nat) :
    ∃ j, k ≤ j ∧ (r j).wakeAt = none ∧ (r j).index = 0 := by
  cases hw : (r k).wakeAt with
  | some t => exact exists_wake hr hgo hw
  | none =>
    obtain ⟨j, hj, hw, hend, -⟩ :=
      exists_pass_end (S := fun _ => True) hr hgo hw trivial fun _ _ _ _ _ _ => trivial
    have hnext := hr j
    have hgoing := hgo (j + 1)
    rw [step_end (hgo j) hw hend] at hnext
    rw [hnext] at hgoing
    split_ifs at hnext hgoing
    · cases hgoing
    · exact ⟨j + 1, Nat.le_succ_of_le hj, by rw [hnext]; rfl, by rw [hnext]; rfl⟩
    · obtain ⟨j', hj', hfresh⟩ := exists_wake hr hgo (k := j + 1) (by rw [hnext]; rfl)
      exact ⟨j', Nat.le_trans (Nat.le_succ_of_le hj) hj', hfresh⟩

/-- A pass has only passed over children that did not end before some time. -/
def Stale (fates : Fates) (limit : Nat) (r : Reaper) : Prop :=
  ∀ child ∈ r.held.take r.index, fates.answer limit child = none

theorem Stale.look {r : Reaper} {now child : Nat} (h : r.Stale fates limit) (hl : limit ≤ now)
    (hc : r.held[r.index]? = some child) :
    (r.look child (fates.look now child)).Stale fates limit := by
  unfold Stale
  rcases look_cases hc fates now with
    ⟨ha, he⟩ | ⟨-, rest, -, he⟩ | ⟨reason, -, -, he⟩
  · rw [he]
    intro c hm
    rw [List.take_add_one, hc] at hm
    rcases List.mem_append.mp hm with hm | hm
    · exact h c hm
    · rw [List.mem_singleton.mp hm]
      exact Option.eq_none_iff_forall_ne_some.mpr fun reason hs => by
        rw [fates.answer_of_le hl hs] at ha
        cases ha
  · rw [he]
    show ∀ c ∈ (r.held.take r.index ++ rest).take r.index, _
    rw [List.take_left' (length_passed hc)]
    exact h
  · rw [he]
    exact h

/-- **A reaper returns** when it holds no child, or one that has ended before some time, whenever it
is at work. -/
theorem exists_result (hr : Runs fates clock r) (limit : Nat)
    (hheld : ∀ k, (r k).result? = none →
      (r k).held = [] ∨
        ∃ child ∈ (r k).held, ∃ reason, fates.answer limit child = some reason) :
    ∃ k, (r k).result? ≠ none := by
  by_contra hnever
  have hgo (k : Nat) : (r k).result? = none := by
    by_contra hne
    exact hnever ⟨k, hne⟩
  obtain ⟨late, hlate⟩ := clock.unbounded limit
  obtain ⟨k, hk, hw, hindex⟩ := exists_pass_start hr hgo late
  have hfresh : (r k).Stale fates limit := by
    unfold Stale
    rw [hindex]
    exact fun _ hm => by cases hm
  -- A pass that begins so late passes over no child that will have ended.
  obtain ⟨j, -, hw, hend, hstale⟩ := exists_pass_end hr hgo hw hfresh fun j hj hs child hc hnext =>
    hnext ▸ hs.look (Nat.le_trans hlate (clock.monotone (Nat.le_trans hk hj))) hc
  unfold Stale at hstale
  rw [List.take_of_length_le hend] at hstale
  have hempty : (r j).held = [] := (hheld j (hgo j)).resolve_right fun ⟨child, hm, reason, ha⟩ => by
    rw [hstale child hm] at ha
    cases ha
  have hgoing := hgo (j + 1)
  rw [hr, step_end (hgo j) hw hend, hempty] at hgoing
  cases hgoing

end Reaper

end Coprocess
