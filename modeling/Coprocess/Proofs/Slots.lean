import Coprocess.Descriptor
import Mathlib.Tactic.SplitIfs

/-!
# Slots are filled once

Units that share slots are put together one after the other, of whatever lines. What stands in a
slot then is what stood there before, or else the first line of the first of these units that has
this slot.

* `Slots.Call`, `Slots.after`: a unit that is put together, and the slots after any number of them;
* `Slots.firstAnswer?`: the answer of the first call that has a slot;
* `Slots.get?_after`: what stands in a slot after some calls;
* `Slots.expected_after_of_empty`, `Slots.expected_after_of_filled`: how many lines a unit takes
  then;
* **`Slots.filled_once`**: an answer stays, whatever calls come after it.
-/

namespace Coprocess

/-- The slot of a unit that has one. -/
def Descriptor.slot? : Descriptor → Option Nat
  | .cached slot => some slot
  | _ => none

theorem Descriptor.slot?_eq_some_iff {d : Descriptor} {slot : Nat} :
    d.slot? = some slot ↔ d = .cached slot := by
  cases d <;> simp [slot?]

namespace Slots

/-- A unit that is put together of some lines, which may be more or fewer than it takes. -/
structure Call where
  descriptor : Descriptor
  lines : List Bytes

/-- The unit that a call gives, and the slots after it. -/
def Call.run (call : Call) (slots : Slots) : Bytes × Slots :=
  call.descriptor.assemble call.lines slots

/-- The slots after some calls. -/
def after (slots : Slots) (calls : List Call) : Slots :=
  calls.foldl (fun slots call => (call.run slots).2) slots

/-- What the first call that has a slot can put there: the first of its lines, or nothing of no
lines. -/
def firstAnswer? (calls : List Call) (slot : Nat) : Option Bytes :=
  (calls.find? fun call => call.descriptor.slot? = some slot).map fun call => call.lines.headD []

variable {slots : Slots} {slot : Nat}

/-! ## One call -/

theorem Call.get?_run (call : Call) (slots : Slots) (slot : Nat) :
    (call.run slots).2.get? slot =
      if call.descriptor.slot? = some slot then some ((slots.get? slot).getD (call.lines.headD []))
      else slots.get? slot := by
  obtain ⟨d, lines⟩ := call
  cases d with
  | document | wrapped => rfl
  | cached i =>
    simp only [run, Descriptor.assemble, get?_fill, Descriptor.slot?, Option.some.injEq]
    split_ifs with h
    · rw [h]
    · rfl

theorem fst_run_cached (slots : Slots) (slot : Nat) (lines : List Bytes) :
    (Call.run ⟨.cached slot, lines⟩ slots).1 = (slots.get? slot).getD (lines.headD []) := by
  simp [Call.run, Descriptor.assemble, get?_fill]

/-! ## Any number of calls -/

theorem after_append (slots : Slots) (past future : List Call) :
    slots.after (past ++ future) = (slots.after past).after future := List.foldl_append

/-- **What stands in a slot after some calls**: what stood there before, or else the answer of the
first call that has the slot. -/
theorem get?_after (slots : Slots) (calls : List Call) (slot : Nat) :
    (slots.after calls).get? slot = (slots.get? slot).or (firstAnswer? calls slot) := by
  induction calls generalizing slots with
  | nil => exact Option.or_none.symm
  | cons call calls ih =>
    have hrun := call.get?_run slots slot
    have hstep : slots.after (call :: calls) = (call.run slots).2.after calls := rfl
    rw [hstep, ih, hrun, firstAnswer?, firstAnswer?, List.find?_cons]
    by_cases h : call.descriptor.slot? = some slot
    · rw [if_pos h, decide_eq_true h]
      cases slots.get? slot <;> rfl
    · rw [if_neg h, decide_eq_false h]

theorem firstAnswer?_eq_none_iff {calls : List Call} :
    firstAnswer? calls slot = none ↔ ∀ call ∈ calls, call.descriptor ≠ .cached slot := by
  simp [firstAnswer?, Descriptor.slot?_eq_some_iff]

theorem firstAnswer?_cons (lines : List Bytes) (calls : List Call) :
    firstAnswer? (⟨.cached slot, lines⟩ :: calls) slot = some (lines.headD []) := by
  simp [firstAnswer?, Descriptor.slot?]

theorem get?_after_of_filled {answer : Bytes} (h : slots.get? slot = some answer)
    (calls : List Call) : (slots.after calls).get? slot = some answer := by
  rw [get?_after, h]
  rfl

theorem get?_after_of_empty (h : slots.get? slot = none) (lines : List Bytes) (calls : List Call) :
    (slots.after (⟨.cached slot, lines⟩ :: calls)).get? slot = some (lines.headD []) := by
  rw [get?_after, h, firstAnswer?_cons]
  rfl

theorem expected_after_of_empty (h : slots.get? slot = none) {calls : List Call}
    (hno : ∀ call ∈ calls, call.descriptor ≠ .cached slot) :
    (Descriptor.cached slot).expected (slots.after calls) = 1 := by
  rw [Descriptor.expected, get?_after, h, firstAnswer?_eq_none_iff.mpr hno]
  rfl

theorem expected_after_of_filled {calls : List Call}
    (h : (slots.get? slot).isSome = true ∨ ∃ call ∈ calls, call.descriptor = .cached slot) :
    (Descriptor.cached slot).expected (slots.after calls) = 0 := by
  have hsome : ((slots.after calls).get? slot).isSome = true := by
    rw [get?_after, Option.isSome_or, Bool.or_eq_true]
    refine h.imp_right fun ⟨call, hc, hd⟩ => ?_
    rw [Option.isSome_iff_ne_none]
    exact fun hnone => firstAnswer?_eq_none_iff.mp hnone call hc hd
  rw [Descriptor.expected, if_pos hsome]

/-- **A slot is filled once.** Units of all kinds that share slots are put together, of whatever
lines. A slot that is filled keeps its answer, and every unit with this slot is this answer. A slot
that is empty gets the first line of the first unit that has it, or nothing when there is no line;
this is what the unit is, and what every later one is, whatever its lines. No call changes a slot
that it does not have. A unit with a slot takes a line until the first unit with this slot is put
together, and none ever after; another unit always takes the same number of lines. -/
theorem filled_once (slots : Slots) (past : List Call) :
    (∀ slot answer, (slots.after past).get? slot = some answer → ∀ future,
      (slots.after (past ++ future)).get? slot = some answer ∧
        ∀ lines, (Call.run ⟨.cached slot, lines⟩ (slots.after (past ++ future))).1 = answer) ∧
    (∀ slot lines, (slots.after past).get? slot = none →
      (Call.run ⟨.cached slot, lines⟩ (slots.after past)).1 = lines.headD [] ∧
        ∀ future, let later := slots.after (past ++ ⟨.cached slot, lines⟩ :: future)
          later.get? slot = some (lines.headD []) ∧
            ∀ more, (Call.run ⟨.cached slot, more⟩ later).1 = lines.headD []) ∧
    (∀ (call : Call) (slot : Nat), call.descriptor ≠ .cached slot →
      (slots.after (past ++ [call])).get? slot = (slots.after past).get? slot) ∧
    (∀ slot,
      (slots.get? slot = none ∧ (∀ call ∈ past, call.descriptor ≠ .cached slot) →
        (Descriptor.cached slot).expected (slots.after past) = 1) ∧
      ((slots.get? slot).isSome = true ∨ (∃ call ∈ past, call.descriptor = .cached slot) →
        (Descriptor.cached slot).expected (slots.after past) = 0)) ∧
    ∀ d : Descriptor, (∀ slot, d ≠ .cached slot) →
      d.expected (slots.after past) = d.expected slots := by
  refine ⟨fun slot answer h future => ?_, fun slot lines h => ⟨?_, fun future => ?_⟩,
    fun call slot hne => ?_,
    fun slot => ⟨fun h => expected_after_of_empty h.1 h.2, expected_after_of_filled⟩,
    fun d hd => ?_⟩
  · have hkept : (slots.after (past ++ future)).get? slot = some answer := by
      rw [after_append]
      exact get?_after_of_filled h future
    exact ⟨hkept, fun lines => by rw [fst_run_cached, hkept]; rfl⟩
  · rw [fst_run_cached, h]
    rfl
  · have hfilled : (slots.after (past ++ ⟨.cached slot, lines⟩ :: future)).get? slot =
        some (lines.headD []) := by
      rw [after_append]
      exact get?_after_of_empty h lines future
    exact ⟨hfilled, fun more => by rw [fst_run_cached, hfilled]; rfl⟩
  · have hother : ¬ call.descriptor.slot? = some slot := fun h =>
      hne (Descriptor.slot?_eq_some_iff.mp h)
    rw [after_append]
    exact (call.get?_run _ slot).trans (if_neg hother)
  · cases d with
    | document | wrapped => rfl
    | cached slot => exact absurd rfl (hd slot)

/-- Two slots, of which one is filled by a unit without lines, and other units in between: what is
empty at first stays so, and no line is taken for it any more. -/
theorem filled_once_empty :
    let past : List Call := [⟨.document 1 true, [[97], [98]]⟩, ⟨.cached 1, [[99], [100]]⟩]
    let later := after {} (past ++ ⟨.cached 0, []⟩ :: [⟨.wrapped [[32]], []⟩, ⟨.cached 0, [[101]]⟩])
    (after {} past).get? 0 = none ∧ later.get? 0 = some [] ∧ later.get? 1 = some [99] ∧
      (Call.run ⟨.cached 0, [[102]]⟩ later).1 = [] ∧ (Descriptor.cached 0).expected later = 0 := by
  intro past later
  have hempty : (after {} past).get? 0 = none := by decide
  have hfilled : (after {} past).get? 1 = some [99] := by decide
  obtain ⟨hkeeps, hfills, -⟩ := filled_once {} past
  obtain ⟨-, hlater⟩ := hfills 0 [] hempty
  obtain ⟨hzero, hrun⟩ := hlater [⟨.wrapped [[32]], []⟩, ⟨.cached 0, [[101]]⟩]
  refine ⟨hempty, hzero, (hkeeps 1 [99] hfilled _).1, hrun [[102]], ?_⟩
  obtain ⟨-, -, -, hexpected, -⟩ := filled_once {} (past ++ ⟨.cached 0, []⟩ ::
    [⟨.wrapped [[32]], []⟩, ⟨.cached 0, [[101]]⟩])
  exact (hexpected 0).2 (.inr ⟨⟨.cached 0, []⟩, by simp, rfl⟩)

end Slots

end Coprocess
