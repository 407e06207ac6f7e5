import Coprocess.Proofs.Pool.Polling

/-!
# The passes of a reaper

* `Pass`, `Pass.Covers`, `Pass.Fails`: what a pass has looked at;
* `Patrol`, `Patrol.step`, `Patrol.after`: a reaper with its passes;
* `Patrol.Move`, `Patrol.moves`: all that a step can do;
* `Patrol.Inv`, **`Patrol.inv_step`**: what holds of a reaper and its passes at any time;
* `Patrol.exists_returned`: a reaper returns when a child fails, or all succeed;
* **`Patrol.reaps_all`**: no child is missed.
-/

namespace Coprocess

/-! ## Passes -/

/-- A pass over some children. -/
structure Pass where
  /-- The children that have not been seen to end before. -/
  children : List Nat
  /-- Who was looked at, in this order, and what the answers were. -/
  looks : List (Nat × Option Termination) := []

namespace Pass

/-- Looks at a child. -/
def look (p : Pass) (child : Nat) (answer : Option Termination) : Pass :=
  { p with looks := p.looks ++ [(child, answer)] }

/-- The children that had not ended. -/
def left (p : Pass) : List Nat := (p.looks.filter fun look => look.2.isNone).map Prod.fst

/-- A pass has looked at all its children once, apart from some that it has not looked at, and found
none that failed. -/
structure Covers (p : Pass) (rest : List Nat) : Prop where
  nodup : p.children.Nodup
  once : (p.looks.map Prod.fst ++ rest).Perm p.children
  unfailed : ∀ look ∈ p.looks, look.2 = none ∨ look.2 = some (.exited 0)

/-- A pass has found a child that failed, and none before. -/
def Fails (p : Pass) (child : Nat) (reason : Termination) : Prop :=
  ∃ before rest, p.looks = before ++ [(child, some reason)] ∧ reason ≠ .exited 0 ∧
    Covers { p with looks := before } (child :: rest)

variable {p : Pass} {rest rest' : List Nat} {child : Nat} {answer : Option Termination}
  {reason : Termination}

theorem Covers.look (h : p.Covers (child :: rest)) (ha : answer = none ∨ answer = some (.exited 0))
    (hrest : rest'.Perm rest) : (p.look child answer).Covers rest' := by
  refine ⟨h.nodup, ?_, fun l hl => ?_⟩
  · rw [Pass.look, List.map_append, List.append_assoc]
    exact ((hrest.cons child).append_left _).trans h.once
  · rcases List.mem_append.mp hl with hl | hl
    · exact h.unfailed l hl
    · rw [List.mem_singleton.mp hl]
      exact ha

theorem Covers.fails (h : p.Covers (child :: rest)) (hreason : reason ≠ .exited 0) :
    (p.look child (some reason)).Fails child reason :=
  ⟨p.looks, rest, rfl, hreason, h⟩

theorem left_look_none : (p.look child none).left = p.left ++ [child] := by
  rw [left, look, List.filter_append, List.map_append]
  rfl

theorem left_look_some : (p.look child (some reason)).left = p.left := by
  rw [left, look, List.filter_append, List.map_append]
  exact List.append_nil _

theorem left_sublist (p : Pass) : p.left.Sublist (p.looks.map Prod.fst) :=
  List.filter_sublist.map _

theorem Covers.next (h : p.Covers []) : Covers { children := p.left } p.left := by
  refine ⟨?_, .rfl, fun l hl => (by cases hl)⟩
  have hnodup := h.once.nodup_iff.mpr h.nodup
  rw [List.append_nil] at hnodup
  exact p.left_sublist.nodup hnodup

theorem Covers.mem_of_left (h : p.Covers rest) (hc : child ∈ p.left) : child ∈ p.children :=
  h.once.mem_iff.mp (List.mem_append_left rest (p.left_sublist.subset hc))

theorem Covers.mem_of_rest (h : p.Covers rest) (hc : child ∈ rest) : child ∈ p.children :=
  h.once.mem_iff.mp (List.mem_append_right _ hc)

end Pass

/-! ## A reaper and its passes -/

/-- The child that a reaper looks at in its next step. -/
def Reaper.atHand? (r : Reaper) : Option Nat :=
  if r.wakeAt.isSome then none else r.held[r.index]?

/-- A reaper that neither sleeps nor has returned. -/
def Reaper.isAwake (r : Reaper) : Bool := r.wakeAt.isNone && r.result?.isNone

/-- A reaper with its passes. -/
structure Patrol where
  reaper : Reaper
  /-- The passes before the present one. -/
  past : List Pass := []
  pass : Pass

namespace Patrol

/-- The start of a reaper of `n` children. -/
def start (n : Nat) : Patrol :=
  { reaper := { held := List.range n }, pass := { children := List.range n } }

/-- A step of a reaper at a time, which looks at a child, or begins a pass over those that had not
ended in the one before. A reaper that cannot take a step stays as it is. -/
def step (fates : Fates) (now : Nat) (p : Patrol) : Patrol :=
  match p.reaper.step now (fates.look now) with
  | none => p
  | some reaper =>
    match p.reaper.atHand? with
    | some child => { p with reaper, pass := p.pass.look child (fates.answer now child) }
    | none =>
      if reaper.isAwake then ⟨reaper, p.past ++ [p.pass], { children := p.pass.left }⟩
      else { p with reaper }

/-- A reaper of `n` children after so many steps. -/
def after (fates : Fates) (clock : Clock) (n : Nat) : Nat → Patrol
  | 0 => start n
  | k + 1 => (after fates clock n k).step fates (clock.time k)

variable {fates : Fates} {now later n : Nat} {p p' : Patrol}

/-- All that a step of a reaper does with its passes. -/
inductive Move (fates : Fates) (now : Nat) (p : Patrol) : Patrol → Prop
  | still (h : p.reaper.step now (fates.look now) = none) : Move fates now p p
  | look {child : Nat} (hgo : p.reaper.result? = none) (hw : p.reaper.wakeAt = none)
      (hc : p.reaper.held[p.reaper.index]? = some child) :
    Move fates now p ⟨p.reaper.look child (fates.look now child), p.past,
      p.pass.look child (fates.answer now child)⟩
  | next (hgo : p.reaper.result? = none)
      (hend : p.reaper.wakeAt ≠ none ∨ p.reaper.held.length ≤ p.reaper.index) :
    Move fates now p ⟨p.reaper.beginPass, p.past ++ [p.pass], { children := p.pass.left }⟩
  | sleep {t : Nat} (hgo : p.reaper.result? = none) (hw : p.reaper.wakeAt = none)
      (hend : p.reaper.held.length ≤ p.reaper.index) :
    Move fates now p { p with reaper := { p.reaper with wakeAt := some t } }
  | finish (hgo : p.reaper.result? = none) (hw : p.reaper.wakeAt = none)
      (hheld : p.reaper.held = []) :
    Move fates now p { p with reaper := { p.reaper with result? := some (.ok p.reaper.reaped) } }

theorem moves (fates : Fates) (now : Nat) (p : Patrol) : p.Move fates now (p.step fates now) := by
  unfold step
  cases hs : p.reaper.step now (fates.look now) with
  | none => exact .still hs
  | some r =>
    have hgo := Reaper.going_of_step hs
    have hasleep {t : Nat} (hw : p.reaper.wakeAt = some t) : p.reaper.atHand? = none := by
      rw [Reaper.atHand?, hw]
      rfl
    have hawake (hw : p.reaper.wakeAt = none) :
        p.reaper.atHand? = p.reaper.held[p.reaper.index]? := by
      rw [Reaper.atHand?, hw]
      rfl
    have hbegin : p.reaper.beginPass.isAwake = true := by
      rw [Reaper.isAwake, Reaper.beginPass, hgo]
      rfl
    cases Reaper.moves hs with
    | wake hw ht =>
      simp only [hasleep hw, hbegin, if_true]
      exact .next hgo (.inl (by rw [hw]; exact Option.some_ne_none _))
    | look hw hc =>
      simp only [hawake hw, hc]
      exact .look hgo hw hc
    | again hw hend =>
      simp only [hawake hw, List.getElem?_eq_none hend, hbegin, if_true]
      exact .next hgo (.inr hend)
    | sleep hw hend hne =>
      simp only [hawake hw, List.getElem?_eq_none hend]
      exact .sleep hgo hw hend
    | finish hw hheld =>
      simp only [hawake hw, hheld, List.getElem?_nil, Reaper.isAwake, Option.isNone_some,
        Bool.and_false]
      exact hheld ▸ .finish hgo hw hheld

theorem reaper_step (fates : Fates) (now : Nat) (p : Patrol) :
    (p.step fates now).reaper = (p.reaper.step now (fates.look now)).getD p.reaper := by
  unfold step
  cases p.reaper.step now (fates.look now) with
  | none => rfl
  | some r =>
    cases p.reaper.atHand? with
    | some child => rfl
    | none => exact (apply_ite reaper _ _ _).trans (ite_self _)

/-! ## What holds of a reaper and its passes -/

/-- What holds at a time of a reaper of `n` children, and its passes. -/
structure Inv (fates : Fates) (n now : Nat) (p : Patrol) : Prop where
  reaper : p.reaper.Inv n (fates.look now)
  known : ∀ child ∈ p.pass.children, child < n
  count : p.reaper.reaped + p.reaper.held.length = n
  past : ∀ pass ∈ p.past, pass.Covers []
  pass : (∀ failed, p.reaper.result? ≠ some (.error failed)) →
    p.pass.Covers (p.reaper.held.drop p.reaper.index)
  left : p.reaper.held.take p.reaper.index = p.pass.left
  asleep : p.reaper.wakeAt ≠ none → p.reaper.held.length ≤ p.reaper.index
  returned : ∀ m, p.reaper.result? = some (.ok m) → m = p.reaper.reaped
  failed : ∀ child reason, p.reaper.result? = some (.error (.child child reason)) →
    child < n ∧ p.pass.Fails child reason ∧ fates.answer now child = some reason
  told : ∀ errno, p.reaper.result? ≠ some (.error (.system errno))

theorem inv_start (fates : Fates) (n now : Nat) : (start n).Inv fates n now where
  reaper := Reaper.inv_start n _
  known _ hc := List.mem_range.mp hc
  count := (Nat.zero_add _).trans List.length_range
  past _ h := by cases h
  pass _ := ⟨List.nodup_range, .rfl, fun _ h => by cases h⟩
  left := rfl
  asleep h := absurd rfl h
  returned _ h := by cases h
  failed _ _ h := by cases h
  told _ h := by cases h

theorem Inv.mono (h : p.Inv fates n now) (hl : now ≤ later) : p.Inv fates n later where
  reaper := h.reaper.mono fun _ _ ha =>
    fates.look_eq_ok_iff.mpr (fates.answer_of_le hl (fates.look_eq_ok_iff.mp ha))
  known := h.known
  count := h.count
  past := h.past
  pass := h.pass
  left := h.left
  asleep := h.asleep
  returned := h.returned
  failed child reason hr :=
    have ⟨hlt, hfails, ha⟩ := h.failed child reason hr
    ⟨hlt, hfails, fates.answer_of_le hl ha⟩
  told := h.told

theorem Inv.pass_of_going (h : p.Inv fates n now) (hgo : p.reaper.result? = none) :
    p.pass.Covers (p.reaper.held.drop p.reaper.index) :=
  h.pass fun failed hf => by rw [hgo] at hf; cases hf

theorem Inv.pass_of_end (h : p.Inv fates n now) (hgo : p.reaper.result? = none)
    (hend : p.reaper.held.length ≤ p.reaper.index) :
    p.pass.Covers [] ∧ p.reaper.held = p.pass.left := by
  have hcovers := h.pass_of_going hgo
  rw [List.drop_eq_nil_iff.mpr hend] at hcovers
  refine ⟨hcovers, ?_⟩
  rw [← h.left, List.take_of_length_le hend]

theorem Inv.lt_of_mem (h : p.Inv fates n now) (hgo : p.reaper.result? = none) {child : Nat}
    (hc : child ∈ p.reaper.held) : child < n := by
  have hcovers := h.pass_of_going hgo
  rw [← List.take_append_drop p.reaper.index p.reaper.held, h.left] at hc
  rcases List.mem_append.mp hc with hc | hc
  · exact h.known child (hcovers.mem_of_left hc)
  · exact h.known child (hcovers.mem_of_rest hc)

theorem inv_look (h : p.Inv fates n now) {child : Nat} (hgo : p.reaper.result? = none)
    (hw : p.reaper.wakeAt = none) (hc : p.reaper.held[p.reaper.index]? = some child)
    (hreaper : (p.reaper.look child (fates.look now child)).Inv n (fates.look now)) :
    Inv fates n now ⟨p.reaper.look child (fates.look now child), p.past,
      p.pass.look child (fates.answer now child)⟩ := by
  have hcovers := h.pass_of_going hgo
  rw [List.drop_eq_getElem?_toList_append, hc, Option.toList_some, List.singleton_append]
    at hcovers
  have hlen := Reaper.length_passed hc
  rcases Reaper.look_cases hc fates now with
    ⟨ha, hlook⟩ | ⟨ha, rest, hperm, hlook⟩ | ⟨reason, ha, hreason, hlook⟩
  · rw [hlook] at hreaper ⊢
    rw [ha]
    refine ⟨hreaper, h.known, h.count, h.past, fun _ => hcovers.look (.inl rfl) .rfl, ?_,
      fun hne => absurd hw hne, h.returned, fun _ _ hr => ?_, h.told⟩
    · rw [Pass.left_look_none, ← h.left, List.take_add_one, hc]
      rfl
    · cases hgo.symm.trans hr
  · rw [hlook] at hreaper ⊢
    rw [ha]
    refine ⟨hreaper, h.known, ?_, h.past, fun _ => ?_, ?_, fun hne => absurd hw hne,
      fun m hr => ?_, fun _ _ hr => ?_, h.told⟩
    · have hcount := h.count
      have hlt := (List.getElem?_eq_some_iff.mp hc).1
      have hrest := hperm.length_eq
      rw [List.length_drop] at hrest
      show p.reaper.reaped + 1 + (p.reaper.held.take p.reaper.index ++ rest).length = n
      rw [List.length_append, hlen]
      omega
    · show Pass.Covers _ ((p.reaper.held.take p.reaper.index ++ rest).drop p.reaper.index)
      rw [List.drop_left' hlen]
      exact hcovers.look (.inr rfl) hperm
    · show (p.reaper.held.take p.reaper.index ++ rest).take p.reaper.index = _
      rw [List.take_left' hlen, Pass.left_look_some]
      exact h.left
    · cases hgo.symm.trans hr
    · cases hgo.symm.trans hr
  · rw [hlook] at hreaper ⊢
    rw [ha]
    refine ⟨hreaper, h.known, h.count, h.past, fun hne => absurd rfl (hne _), ?_,
      fun hne => absurd hw hne, fun _ hr => (by cases hr), ?_, fun _ hr => (by cases hr)⟩
    · rw [Pass.left_look_some]
      exact h.left
    · intro _ _ hr
      cases hr
      exact ⟨h.lt_of_mem hgo (List.mem_of_getElem? hc), hcovers.fails hreason, ha⟩

theorem inv_next (h : p.Inv fates n now) (hgo : p.reaper.result? = none)
    (hend : p.reaper.wakeAt ≠ none ∨ p.reaper.held.length ≤ p.reaper.index)
    (hreaper : p.reaper.beginPass.Inv n (fates.look now)) :
    Inv fates n now ⟨p.reaper.beginPass, p.past ++ [p.pass], { children := p.pass.left }⟩ := by
  obtain ⟨hcovers, hheld⟩ := h.pass_of_end hgo (hend.elim h.asleep id)
  refine ⟨hreaper, fun _ hc => h.known _ (hcovers.mem_of_left hc), h.count, fun pass hp => ?_,
    fun _ => ?_, rfl, fun hne => absurd rfl hne, h.returned, fun _ _ hr => ?_, h.told⟩
  · rcases List.mem_append.mp hp with hp | hp
    · exact h.past pass hp
    · rw [List.mem_singleton.mp hp]
      exact hcovers
  · show Pass.Covers _ (p.reaper.held.drop 0)
    rw [List.drop_zero, hheld]
    exact hcovers.next
  · have hr : p.reaper.result? = some _ := hr
    rw [hgo] at hr
    cases hr

/-- **What holds of a reaper and its passes** holds after a step. -/
theorem inv_step (h : p.Inv fates n now) : (p.step fates now).Inv fates n now := by
  have hreaper : (p.step fates now).reaper.Inv n (fates.look now) := by
    rw [reaper_step]
    cases hs : p.reaper.step now (fates.look now) with
    | none => exact h.reaper
    | some r => exact Reaper.step_inv hs h.reaper
  have hmove := moves fates now p
  revert hreaper hmove
  generalize p.step fates now = p'
  rintro hreaper (_ | ⟨hgo, hw, hc⟩ | ⟨hgo, hend⟩ | ⟨hgo, hw, hend⟩ | ⟨hgo, hw, hheld⟩)
  · exact h
  · exact inv_look h hgo hw hc hreaper
  · exact inv_next h hgo hend hreaper
  · exact ⟨hreaper, h.known, h.count, h.past, h.pass, h.left, fun _ => hend, h.returned, h.failed,
      h.told⟩
  · have hcovers := h.pass_of_going hgo
    exact ⟨hreaper, h.known, h.count, h.past, fun _ => hcovers, h.left, h.asleep,
      fun m hr => (by cases hr; rfl), fun _ _ hr => (by cases hr), fun _ hr => (by cases hr)⟩

/-- **What holds of a reaper and its passes** at any time. -/
theorem inv_after (fates : Fates) (clock : Clock) (n k : Nat) :
    (after fates clock n k).Inv fates n (clock.time k) := by
  induction k with
  | zero => exact inv_start fates n _
  | succ k ih => exact (inv_step ih).mono (clock.monotone (Nat.le_succ k))

/-! ## All children -/

variable {clock : Clock}

theorem runs (fates : Fates) (clock : Clock) (n : Nat) :
    Reaper.Runs fates clock fun k => (after fates clock n k).reaper :=
  fun k => reaper_step fates (clock.time k) (after fates clock n k)

theorem exists_returned (fates : Fates) (clock : Clock) (n : Nat)
    (h : (∃ child < n, ∃ t reason, (fates.status t child).Failed reason) ∨
      ∀ child < n, ∃ t, fates.status t child = .exited 0) :
    ∃ k, (after fates clock n k).reaper.result? ≠ none := by
  obtain ⟨limit, hlimit⟩ := fates.exists_limit n
  refine Reaper.exists_result (runs fates clock n) limit fun k hgo => ?_
  have hinv := inv_after fates clock n k
  rcases h with ⟨child, hc, t, reason, hfailed⟩ | hall
  · obtain ⟨ha, hbad⟩ := WaitStatus.failed_iff.mp hfailed
    rcases hinv.reaper.reaped child hc with hm | ⟨reason', ha', hok⟩
    · exact .inr ⟨child, hm, reason, hlimit child hc t reason ha⟩
    · rw [fates.answer_unique (fates.look_eq_ok_iff.mp ha') ha, hbad] at hok
      cases hok
  · refine or_iff_not_imp_left.mpr fun hne => ?_
    obtain ⟨child, hm⟩ := List.exists_mem_of_ne_nil _ hne
    have hc := hinv.lt_of_mem hgo hm
    obtain ⟨t, ht⟩ := hall child hc
    obtain ⟨reason, ha, -⟩ := WaitStatus.succeeded_iff.mp ht
    exact ⟨child, hm, reason, hlimit child hc t reason ha⟩

/-- All passes have looked at each of their children once, up to the first child that failed. What
the reaper holds are those that had not ended, and those that the present pass has not looked at. -/
structure Orderly (p : Patrol) : Prop where
  past : ∀ pass ∈ p.past, pass.Covers []
  going : p.reaper.result? = none →
    ∃ rest, p.pass.Covers rest ∧ p.reaper.held = p.pass.left ++ rest
  ok : ∀ m, p.reaper.result? = some (.ok m) → p.pass.Covers []
  failed : ∀ child reason, p.reaper.result? = some (.error (.child child reason)) →
    p.pass.Fails child reason

theorem Inv.orderly (h : p.Inv fates n now) : p.Orderly where
  past := h.past
  going hgo := ⟨_, h.pass_of_going hgo, h.left ▸ (List.take_append_drop _ _).symm⟩
  ok m hr := by
    have hcovers := h.pass fun failed hf => by rw [hr] at hf; cases hf
    rwa [h.reaper.result m hr, List.drop_nil] at hcovers
  failed child reason hr := (h.failed child reason hr).2.1

theorem Inv.of_ok (h : p.Inv fates n now) {m : Nat} (hr : p.reaper.result? = some (.ok m)) :
    m = n ∧ p.reaper.held = [] ∧ ∀ child < n, fates.status now child = .exited 0 := by
  have hheld := h.reaper.result m hr
  have hcount := h.count
  rw [hheld, List.length_nil, Nat.add_zero, ← h.returned m hr] at hcount
  refine ⟨hcount, hheld, fun child hc => ?_⟩
  obtain ⟨reason, ha, hok⟩ := h.reaper.of_ok hr child hc
  exact WaitStatus.succeeded_iff.mpr ⟨reason, fates.look_eq_ok_iff.mp ha, hok⟩

theorem Inv.of_error (h : p.Inv fates n now) {child : Nat} {reason : Termination}
    (hr : p.reaper.result? = some (.error (.child child reason))) :
    child < n ∧ (fates.status now child).Failed reason := by
  obtain ⟨hc, ⟨before, rest, -, hreason, -⟩, ha⟩ := h.failed child reason hr
  refine ⟨hc, WaitStatus.failed_iff.mpr ⟨ha, ?_⟩⟩
  exact Bool.eq_false_iff.mpr fun hok => hreason (Termination.isSuccess_iff.mp hok)

theorem Inv.exists_error (h : p.Inv fates n now) {fault : Reaper.Fault}
    (hr : p.reaper.result? = some (.error fault)) :
    ∃ child reason, p.reaper.result? = some (.error (.child child reason)) := by
  cases fault with
  | child child reason => exact ⟨child, reason, hr⟩
  | system errno => exact absurd hr (h.told errno)

/-- **No child is missed.** Each pass looks at each child that has not been seen to end, once, up to
the first that failed. A reaper of `n` children returns `n` exactly when all of them succeed, and
not before. When a child fails, the reaper returns a child that failed, with the way in which it
did. -/
theorem reaps_all (fates : Fates) (clock : Clock) (n : Nat) :
    (∀ k, (after fates clock n k).Orderly) ∧
      (∀ m, (∃ k, (after fates clock n k).reaper.result? = some (.ok m)) ↔
        m = n ∧ ∀ child < n, ∃ t, fates.status t child = .exited 0) ∧
      (∀ k m, (after fates clock n k).reaper.result? = some (.ok m) →
        (after fates clock n k).reaper.held = [] ∧
          ∀ child < n, fates.status (clock.time k) child = .exited 0) ∧
      (∀ k child reason,
        (after fates clock n k).reaper.result? = some (.error (.child child reason)) →
          child < n ∧ (fates.status (clock.time k) child).Failed reason) ∧
      ((∃ child < n, ∃ t reason, (fates.status t child).Failed reason) →
        ∃ k child reason,
          (after fates clock n k).reaper.result? = some (.error (.child child reason))) := by
  have hinv := inv_after fates clock n
  refine ⟨fun k => (hinv k).orderly, fun m => ⟨?_, ?_⟩, fun k m hr => ((hinv k).of_ok hr).2,
    fun k child reason hr => (hinv k).of_error hr, ?_⟩
  · rintro ⟨k, hr⟩
    obtain ⟨rfl, -, hall⟩ := (hinv k).of_ok hr
    exact ⟨rfl, fun child hc => ⟨_, hall child hc⟩⟩
  · rintro ⟨rfl, hall⟩
    obtain ⟨k, hne⟩ := exists_returned fates clock m (.inr hall)
    obtain ⟨result, hr⟩ := Option.ne_none_iff_exists'.mp hne
    cases result with
    | ok count =>
      obtain ⟨rfl, -⟩ := (hinv k).of_ok hr
      exact ⟨k, hr⟩
    | error fault =>
      obtain ⟨child, reason, hr⟩ := (hinv k).exists_error hr
      obtain ⟨hc, hfailed⟩ := (hinv k).of_error hr
      obtain ⟨t, ht⟩ := hall _ hc
      exact absurd hfailed (fates.not_failed ht)
  · rintro ⟨child, hc, t, reason, hfailed⟩
    obtain ⟨k, hne⟩ := exists_returned fates clock n (.inl ⟨child, hc, t, reason, hfailed⟩)
    obtain ⟨result, hr⟩ := Option.ne_none_iff_exists'.mp hne
    cases result with
    | ok count => exact absurd hfailed (fates.not_failed (((hinv k).of_ok hr).2.2 child hc))
    | error fault => exact ⟨k, (hinv k).exists_error hr⟩

end Patrol

/-- Children that are alive until some time, and answer in another way from then on. -/
def Fates.ending (ends : Nat → Nat × WaitStatus) : Fates where
  status now child := if (ends child).1 ≤ now then (ends child).2 else .stillAlive
  lasts {child now later reason} hl h := by
    by_cases hdue : (ends child).1 ≤ now
    · rw [if_pos hdue] at h
      rw [if_pos (Nat.le_trans hdue hl), h]
    · rw [if_neg hdue] at h
      cases h

theorem Fates.status_ending {ends : Nat → Nat × WaitStatus} {now child : Nat}
    (h : (ends child).1 ≤ now) : (ending ends).status now child = (ends child).2 :=
  if_pos h

/-- A clock that shows one millisecond more at each step. -/
def Clock.steady : Clock := ⟨id, monotone_id, fun t => ⟨t, Nat.le_refl t⟩⟩

/-- Of three children the first succeeds, the second is killed later, and the last is stopped. -/
def Fates.mixed : Fates :=
  .ending fun child =>
    if child = 0 then (3, .exited 0)
    else if child = 1 then (20, .signaled .kill false)
    else (0, .stopped .kill)

/-- The child that was killed is found. -/
theorem Patrol.reaps_all_mixed :
    ∃ k, (after .mixed .steady 3 k).reaper.result? =
      some (.error (.child 1 (.signaled .kill false))) := by
  obtain ⟨-, -, -, hsound, hfound⟩ := reaps_all .mixed .steady 3
  obtain ⟨k, child, reason, hr⟩ :=
    hfound ⟨1, by decide, 20, _, WaitStatus.Failed.signaled .kill false⟩
  obtain ⟨hc, hfailed⟩ := hsound k child reason hr
  obtain rfl | rfl | rfl : child = 0 ∨ child = 1 ∨ child = 2 := by omega
  · have hended : Fates.mixed.status 3 0 = .exited 0 := rfl
    exact absurd hfailed (Fates.mixed.not_failed hended)
  · have hended : Fates.mixed.answer 20 1 = some (.signaled .kill false) := rfl
    rw [Fates.mixed.answer_unique hended (WaitStatus.failed_iff.mp hfailed).1]
    exact ⟨k, hr⟩
  · have hstopped : Fates.mixed.status (Clock.steady.time k) 2 = .stopped .kill :=
      Fates.status_ending (Nat.zero_le _)
    rw [hstopped] at hfailed
    cases hfailed

end Coprocess
