import Coprocess.Child.Session
import Coprocess.Program
import Coprocess.Proofs.Child.Handle

/-!
# The system in which sessions run

* `Habitat.process`: the process of a child;
* **`Session.host_lawful`**: the calls of this system tell of it;
* `Program.host_lawful`: so they do for programs, none of which heeds the signal that kills.
-/

namespace Coprocess

variable {σ : Type} {act : σ → Act σ} {heed : σ → Signal → Option σ}

theorem Child.ended_kill (c : Child σ) (s : Signal) (input output : Pipe) :
    (c.kill s input output).1.ended = some (c.ended.getD (.signaled s false)) := by
  unfold kill
  cases hc : c.ended with
  | some ending => exact hc
  | none => rfl

namespace Habitat

/-- The process of a child, which will have ended when it ends without help of its owner. -/
def process (act : σ → Act σ) (h : Habitat σ) : Host.Process :=
  if h.reaped then .reaped
  else match h.child.ended with
    | some ending => .gone ending
    | none => .running 0 (h.settle act Child.stepLimit).child.ended.isSome

variable {h : Habitat σ} {ending : ProcessEnd}

theorem process_of_reaped (hr : h.reaped = true) : h.process act = .reaped := if_pos hr

theorem process_of_ended (hr : h.reaped = false) (he : h.child.ended = some ending) :
    h.process act = .gone ending := by
  simp only [process, hr, he, Bool.false_eq_true, if_false]

theorem process_of_running (hr : h.reaped = false) (he : h.child.ended = none) :
    h.process act = .running 0 (h.settle act Child.stepLimit).child.ended.isSome := by
  simp only [process, hr, he, Bool.false_eq_true, if_false]

theorem process_eq_reaped_iff : h.process act = .reaped ↔ h.reaped = true := by
  refine ⟨fun hp => ?_, process_of_reaped⟩
  cases hr : h.reaped with
  | true => rfl
  | false =>
    cases he : h.child.ended with
    | some ending =>
      rw [process_of_ended hr he] at hp
      cases hp
    | none =>
      rw [process_of_running hr he] at hp
      cases hp

theorem settle_of_ended (he : h.child.ended = some ending) (fuel : Nat) :
    h.settle act fuel = h := by
  have hnone : h.advance act = none := by
    simp only [advance, Child.step, Child.nextWake?, he, Option.isSome_some, Bool.true_or, if_true,
      Option.isNone_some, Bool.false_and, Bool.false_eq_true, if_false, Option.map_none]
  cases fuel with
  | zero => rfl
  | succ fuel => rw [settle, hnone]

/-- A child that is waited for has ended then. -/
theorem exists_settled (hr : h.reaped = false) (hends : (h.process act).Ends) :
    ∃ ending, (h.settle act Child.stepLimit).child.ended = some ending ∧
      (h.process act).Ages (.gone ending) := by
  cases he : h.child.ended with
  | some ending =>
    rw [process_of_ended hr he, settle_of_ended he]
    exact ⟨ending, he, .stays ending⟩
  | none =>
    rw [process_of_running hr he] at hends ⊢
    obtain ⟨ending, hs⟩ := Option.isSome_iff_exists.mp hends
    exact ⟨ending, hs, .ends ending⟩

/-- A change that leaves the child as it is, or lets it go on, is one that a process may undergo. -/
theorem ages {h' : Habitat σ} (hr : h.reaped = false) (hr' : h'.reaped = false)
    (he : ∀ ending, h.child.ended = some ending → h'.child.ended = some ending) :
    (h.process act).Ages (h'.process act) := by
  cases hend : h.child.ended with
  | some ending =>
    rw [process_of_ended hr hend, process_of_ended hr' (he ending hend)]
    exact .stays ending
  | none =>
    rw [process_of_running hr hend]
    cases hend' : h'.child.ended with
    | some ending =>
      rw [process_of_ended hr' hend']
      exact .ends ending
    | none =>
      rw [process_of_running hr' hend']
      exact .runs (Nat.le_refl 0)

end Habitat

namespace Session

open Habitat

/-- **The system of sessions is lawful** when no child heeds the signal that ends a process. -/
theorem host_lawful (hkill : ∀ state, heed state .kill = none) :
    (host act heed).Lawful (Habitat.process act) where
  wait block h hp hends := by
    have hr : h.reaped = false := by simpa [process_eq_reaped_iff] using hp
    cases block with
    | true =>
      obtain ⟨ending, hs, hages⟩ := exists_settled hr (hends rfl)
      refine ⟨.gone ending, hages, fun _ => trivial, ?_⟩
      simp only [host, hr, Bool.false_eq_true, if_false, if_true, Child.status, hs]
      rw [process_of_reaped rfl]
      exact .reaps ending
    | false =>
      refine ⟨h.process act, ages hr hr fun _ he => he, nofun, ?_⟩
      cases he : h.child.ended with
      | some ending =>
        simp only [host, hr, Bool.false_eq_true, if_false, Child.status, he]
        rw [process_of_ended hr he, process_of_reaped rfl]
        exact .reaps ending
      | none =>
        have hstill : (host act heed).wait false h = (.ok .stillAlive, h) := by
          simp only [host, hr, Bool.false_eq_true, if_false, Child.status, he, Option.isSome_none]
          rw [← hr]
        rw [hstill, process_of_running hr he]
        exact .nothing rfl rfl
  signal s h hp := by
    have hr : h.reaped = false := by simpa [process_eq_reaped_iff] using hp
    simp only [host, hr, Bool.false_eq_true, if_false]
    cases heed h.child.state s with
    | some state => exact ⟨rfl, ages hr rfl fun _ he => he⟩
    | none =>
      refine ⟨rfl, ages hr rfl fun ending he => ?_⟩
      rw [Child.ended_kill, he]
      rfl
  kill h hp := by
    have hr : h.reaped = false := by simpa [process_eq_reaped_iff] using hp
    have hheed : heed h.child.state (NamedSignal.kill : Signal) = none := hkill h.child.state
    simp only [host, hr, Bool.false_eq_true, if_false, hheed]
    rw [process_of_ended rfl (Child.ended_kill ..)]
    trivial
  pause milliseconds h hp := by
    have hr : h.reaped = false := by simpa [process_eq_reaped_iff] using hp
    exact ages hr hr fun _ he => he
  wait_reaped block h hp := by
    have hr := process_eq_reaped_iff.mp hp
    simp only [host, hr, if_true]
    exact hp
  signal_reaped s h hp := by
    have hr := process_eq_reaped_iff.mp hp
    simp only [host, hr, if_true]
    exact hp
  pause_reaped milliseconds h hp := by
    have hr := process_eq_reaped_iff.mp hp
    exact process_of_reaped hr

end Session

theorem Program.heed_kill (p : Program) : p.heed .kill = none := by
  cases p with
  | small p => rfl
  | shell s => simp only [heed, Shell.heed, if_true, Option.map_none]

theorem Program.host_lawful :
    (Session.host Program.act Program.heed).Lawful (Habitat.process Program.act) :=
  Session.host_lawful heed_kill

end Coprocess
