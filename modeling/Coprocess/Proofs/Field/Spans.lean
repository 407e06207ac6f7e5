import Coprocess.Proofs.Field.Selecting
import Mathlib.Data.Nat.PSub

/-!
# Selecting by positions

The selected parts of a line can be found by a scan that knows nothing but positions in the line. It
goes from field to field and slices the line where the ranges begin and end; a slice is only there
within the line.

* `FieldSelection.Span`, `FieldSelection.span?`: two positions in a line, none if they are out of
  order or beyond its end;
* `FieldSelection.nextField?`, `FieldSelection.advance?`, `FieldSelection.walk?`: the scan, none if
  a slice is not there, with the number of its steps from field to field;
* `FieldSelection.nextField?_cases`, `FieldSelection.advance?_cases`: one step, and going on by some
  fields, which the scan does up to the end of the line at most;
* `FieldSelection.InOrder`: spans one behind the other;
* `FieldSelection.walk?_cons_cases`, `FieldSelection.walk?_spec`: what the scan does with one range,
  and with ranges in order;
* **`FieldSelection.selects_within`**: no slice is missing, the steps are bounded by the separators,
  and the parts stand in the line one behind the other.
-/

namespace Coprocess.FieldSelection

/-! ## The scan -/

/-- Two positions in a line, the second one behind the last byte between them. -/
structure Span where
  start : Nat
  stop : Nat
  deriving DecidableEq

/-- The bytes between the two positions. -/
def Span.slice (line : Bytes) (s : Span) : Bytes := (line.drop s.start).take (s.stop - s.start)

/-- The positions are in order and do not go beyond the line. -/
def Span.Within (line : Bytes) (s : Span) : Prop := s.start ≤ s.stop ∧ s.stop ≤ line.length

/-- The span between two positions of a line, if there is one. -/
def span? (line : Bytes) (start stop : Nat) : Option Span :=
  if start ≤ stop ∧ stop ≤ line.length then some ⟨start, stop⟩ else none

/-- The position behind the next separator; without one, the position behind the one at which the
line ends. -/
def nextField? (sep : UInt8) (line : Bytes) (i : Nat) : Option Nat := do
  let tail ← span? line i line.length
  return ((tail.slice line).idxOf? sep).elim line.length (i + ·) + 1

/-- Goes on by so many fields: the position there, unless the line ends before, and the number of
steps. -/
def advance? (sep : UInt8) (line : Bytes) : Nat → Nat → Option (Option Nat × Nat)
  | 0, i => some (some i, 0)
  | n + 1, i => do
    let next ← nextField? sep line i
    if line.length ≤ next then return (none, 1)
    let (reached, steps) ← advance? sep line n next
    return (reached, steps + 1)

/-- The spans of the ranges, when the scan stands before field number `index` at position `i`, and
the number of steps. -/
def walk? (sep : UInt8) (line : Bytes) : Nat → Nat → List FieldRange → Option (List Span × Nat)
  | _, _, [] => some ([], 0)
  | index, i, r :: rs => do
    match ← advance? sep line (r.start - index) i with
    | (none, steps) => return ([], steps)
    | (some start, steps) =>
      let index := max index r.start
      match r.stop with
      | none => return ([← span? line start line.length], steps)
      | some stop =>
        match ← advance? sep line (stop - index) start with
        | (none, more) => return ([← span? line start line.length], steps + more)
        | (some next, more) =>
          -- The separator before `next` is not part of the slice.
          let span ← span? line start (← next.ppred)
          let (spans, rest) ← walk? sep line (max index stop) next rs
          return (span :: spans, steps + more + rest)

/-! ## What the scan finds -/

section Scan

variable {sep : UInt8} {line : Bytes} {i j : Nat}

theorem span?_eq_some (hij : i ≤ j) (hj : j ≤ line.length) : span? line i j = some ⟨i, j⟩ :=
  if_pos ⟨hij, hj⟩

theorem slice_to_end (line : Bytes) (i : Nat) :
    Span.slice line ⟨i, line.length⟩ = line.drop i :=
  List.take_of_length_le (by rw [List.length_drop])

theorem idxOf?_append {f : Bytes} (hf : sep ∉ f) (rest : Bytes) :
    (f ++ sep :: rest).idxOf? sep = some f.length := by
  refine List.idxOf?_eq_some_iff.mpr ⟨by simp, by simp, fun j hj he => hf ?_⟩
  rw [List.getElem_append_left hj] at he
  exact he ▸ List.getElem_mem hj

/-- **A step** is made from any position in the line: to its end, or over one separator to the field
behind it. -/
theorem nextField?_cases (sep : UInt8) (hi : i ≤ line.length) :
    ∃ next, nextField? sep line i = some next ∧
      (line.length ≤ next ∧ dropField sep (line.drop i) = none ∨
        next < line.length ∧ i < next ∧ dropField sep (line.drop i) = some (line.drop next) ∧
          (line.drop i).count sep = (line.drop next).count sep + 1) := by
  rw [nextField?, span?_eq_some hi (Nat.le_refl _)]
  simp only [bind, Option.bind, pure, slice_to_end]
  refine ⟨_, rfl, ?_⟩
  by_cases hm : sep ∈ line.drop i
  · obtain ⟨f, rest, hs, hf⟩ := List.eq_append_cons_of_mem hm
    have hnext : line.drop (i + f.length + 1) = rest := by
      rw [Nat.add_assoc, ← List.drop_drop, hs]
      simp
    have hlen := congrArg List.length hs
    rw [List.length_drop, List.length_append, List.length_cons] at hlen
    rw [hs, idxOf?_append hf rest, Option.elim_some, hnext, dropField_append hf rest]
    cases rest with
    | nil =>
      -- The separator ends the line, and no field is met behind it.
      rw [List.length_nil] at hlen
      exact .inl ⟨by omega, if_pos rfl⟩
    | cons b rest =>
      rw [List.length_cons] at hlen
      refine .inr ⟨by omega, by omega, if_neg (List.cons_ne_nil _ _), ?_⟩
      rw [List.count_append, List.count_eq_zero.mpr hf, List.count_cons_self, Nat.zero_add]
  · rw [List.idxOf?_eq_none_iff.mpr hm]
    exact .inl ⟨Nat.le_succ _, dropField_of_not_mem hm⟩

/-- **Going on by some fields** from a position in the line: to its end, in one step more than there
are separators at most, or to a field that stands behind as many separators. -/
theorem advance?_cases (sep : UInt8) (n : Nat) (hi : i ≤ line.length) :
    (∃ steps, advance? sep line n i = some (none, steps) ∧
      skipFields sep n (line.drop i) = none ∧ steps ≤ (line.drop i).count sep + 1) ∨
    ∃ reached, advance? sep line n i = some (some reached, n) ∧
      skipFields sep n (line.drop i) = some (line.drop reached) ∧ reached ≤ line.length ∧
      i + n ≤ reached ∧ (line.drop i).count sep = (line.drop reached).count sep + n := by
  induction n generalizing i with
  | zero => exact .inr ⟨i, rfl, rfl, hi, Nat.le_refl _, rfl⟩
  | succ n ih =>
    rw [advance?, skipFields]
    obtain ⟨next, hn, ⟨hend, hd⟩ | ⟨hlt, hlater, hd, hcount⟩⟩ := nextField?_cases sep hi
    · refine .inl ⟨1, ?_, by rw [hd]; rfl, Nat.le_add_left _ _⟩
      simp only [hn, bind, Option.bind, if_pos hend]
      rfl
    rw [hd, Option.bind_some]
    rcases ih hlt.le with ⟨steps, ha, hs, hle⟩ | ⟨reached, ha, hs, hle, hadd, hcount'⟩
    · refine .inl ⟨steps + 1, ?_, hs, by omega⟩
      simp only [hn, ha, bind, Option.bind, if_neg hlt.not_ge]
      rfl
    · refine .inr ⟨reached, ?_, hs, hle, by omega, by omega⟩
      simp only [hn, ha, bind, Option.bind, if_neg hlt.not_ge]
      rfl

/-! ## The spans of ranges in order -/

/-- The spans are in the line from the position on, one behind the other. -/
structure InOrder (line : Bytes) (i : Nat) (spans : List Span) : Prop where
  within : ∀ s ∈ spans, s.Within line
  after : ∀ s ∈ spans, i ≤ s.start
  apart : spans.Pairwise fun s t => s.stop < t.start

theorem InOrder.nil : InOrder line i [] :=
  ⟨fun _ h => absurd h List.not_mem_nil, fun _ h => absurd h List.not_mem_nil, List.Pairwise.nil⟩

theorem InOrder.cons {s : Span} {spans : List Span} (hs : s.Within line) (hi : i ≤ s.start)
    (hj : s.stop < j) (h : InOrder line j spans) : InOrder line i (s :: spans) := by
  have hlater : ∀ t ∈ spans, s.stop < t.start := fun t ht => Nat.lt_of_lt_of_le hj (h.after t ht)
  refine ⟨List.forall_mem_cons.mpr ⟨hs, h.within⟩, List.forall_mem_cons.mpr ⟨hi, fun t ht => ?_⟩,
    List.pairwise_cons.mpr ⟨hlater, h.apart⟩⟩
  exact (hi.trans hs.1).trans (hlater t ht).le

/-- **What the scan does with one range**: it meets the end of the line before the range; or the
range takes the rest of the line; or it has a span, and the scan goes on behind the separator at
its end. -/
theorem walk?_cons_cases (sep : UInt8) {index : Nat} {r : FieldRange} (rs : List FieldRange)
    (hproper : r.Proper) (hindex : index ≤ r.start) (hi : i ≤ line.length) :
    (∃ steps, walk? sep line index i (r :: rs) = some ([], steps) ∧
      slices sep index (line.drop i) (r :: rs) = [] ∧ steps ≤ (line.drop i).count sep + 1) ∨
    (∃ start steps, walk? sep line index i (r :: rs) = some ([⟨start, line.length⟩], steps) ∧
      slices sep index (line.drop i) (r :: rs) = [Span.slice line ⟨start, line.length⟩] ∧
      i ≤ start ∧ start ≤ line.length ∧ steps ≤ (line.drop i).count sep + 1) ∨
    ∃ stop start last steps, r.stop = some stop ∧
      walk? sep line index i (r :: rs) = (walk? sep line stop (last + 1) rs).map
        (fun (spans, rest) => (⟨start, last⟩ :: spans, steps + rest)) ∧
      slices sep index (line.drop i) (r :: rs) =
        Span.slice line ⟨start, last⟩ :: slices sep stop (line.drop (last + 1)) rs ∧
      i ≤ start ∧ start ≤ last ∧ last < line.length ∧
      (line.drop i).count sep = (line.drop (last + 1)).count sep + steps := by
  rw [walk?, slices]
  rcases advance?_cases sep (r.start - index) hi with
    ⟨steps, ha, hs, hle⟩ | ⟨start, ha, hs, hstart, hadd, hcount⟩
  · refine .inl ⟨steps, ?_, by rw [hs], hle⟩
    rw [ha]
    rfl
  rw [ha, hs]
  have hend : span? line start line.length = some ⟨start, line.length⟩ :=
    span?_eq_some hstart (Nat.le_refl _)
  cases hstop : r.stop with
  | none =>
    refine .inr (.inl ⟨start, r.start - index, ?_, by rw [slice_to_end], by omega, hstart,
      by omega⟩)
    simp only [bind, Option.bind, pure, hend]
  | some stop =>
    have hlt : r.start < stop := hproper stop hstop
    rcases advance?_cases sep (stop - r.start) hstart with
      ⟨more, hb, ht, hle⟩ | ⟨next, hb, ht, hnext, hadd', hcount'⟩
    · refine .inr (.inl ⟨start, r.start - index + more, ?_, ?_, by omega, hstart, by omega⟩)
      · simp only [bind, Option.bind, pure, Nat.max_eq_right hindex, hb, hend]
      · simp only [ht, slice_to_end]
    · obtain ⟨last, rfl⟩ : ∃ last, next = last + 1 := ⟨next - 1, by omega⟩
      refine .inr (.inr ⟨stop, start, last, r.start - index + (stop - r.start), rfl, ?_, ?_,
        by omega, by omega, by omega, by omega⟩)
      · have hspan : span? line start last = some ⟨start, last⟩ :=
          span?_eq_some (by omega) (by omega)
        simp only [bind, Option.bind, pure, Nat.max_eq_right hindex, Nat.max_eq_right hlt.le, hb,
          Nat.ppred, hspan]
        cases walk? sep line stop (last + 1) rs <;> rfl
      · have hlen :
            (line.drop start).length - (line.drop (last + 1)).length - 1 = last - start := by
          rw [List.length_drop, List.length_drop]
          omega
        simp only [ht, hlen]
        rfl

/-- **The spans of ranges in order**, for a scan that stands at a field before which no range
begins. -/
theorem walk?_spec (sep : UInt8) {index : Nat} {ranges : List FieldRange}
    (h : Ordered ranges) (hindex : ∀ r ∈ ranges, index ≤ r.start) (hi : i ≤ line.length) :
    ∃ spans steps, walk? sep line index i ranges = some (spans, steps) ∧
      slices sep index (line.drop i) ranges = spans.map (Span.slice line) ∧
      InOrder line i spans ∧ spans.length ≤ ranges.length ∧
      steps ≤ (line.drop i).count sep + 1 := by
  -- The separators in front of the scan pay for its steps.
  induction ranges generalizing index i with
  | nil => exact ⟨[], 0, rfl, rfl, .nil, Nat.le_refl _, Nat.zero_le _⟩
  | cons r rs ih =>
    obtain ⟨hbefore, hrs⟩ := List.pairwise_cons.mp h.before
    have hproper := h.proper r List.mem_cons_self
    rcases walk?_cons_cases sep rs hproper (hindex r List.mem_cons_self) hi with
      ⟨steps, hw, hs, hle⟩ | ⟨start, steps, hw, hs, hstart, hend, hle⟩ |
        ⟨stop, start, last, steps, hstop, hw, hs, hstart, hlast, hend, hcount⟩
    · exact ⟨[], steps, hw, hs, .nil, Nat.zero_le _, hle⟩
    · refine ⟨_, steps, hw, hs, ?_, Nat.le_add_left _ _, hle⟩
      exact .cons ⟨hend, Nat.le_refl _⟩ hstart (Nat.lt_succ_self _) .nil
    · have hlater : ∀ q ∈ rs, stop ≤ q.start := fun q hq => by
        obtain ⟨stop', hstop', hlt⟩ := hbefore q hq
        exact Option.some.inj (hstop.symm.trans hstop') ▸ hlt.le
      obtain ⟨spans, rest, hw', hs', hord, hlen, hle⟩ :=
        ih (i := last + 1) ⟨fun q hq => h.proper q (List.mem_cons_of_mem r hq), hrs⟩ hlater hend
      refine ⟨⟨start, last⟩ :: spans, steps + rest, by rw [hw, hw']; rfl, by rw [hs, hs']; rfl, ?_,
        Nat.succ_le_succ hlen, by omega⟩
      exact .cons ⟨hlast, hend.le⟩ hstart (Nat.lt_succ_self _) hord

end Scan

/-- **The scan of a line stays inside it.** It finds what is selected without a slice or a position
that is not there; however large the numbers of the fields, it makes one step more than there are
separators at most; and the selected parts, of which there is one for each range at most, stand in
the line one behind the other. -/
theorem selects_within {list : List Char} {selection : FieldSelection}
    (h : parse list = .ok selection) (line : Bytes) (sep : UInt8) :
    ∃ spans steps, walk? sep line 0 0 selection.ranges = some (spans, steps) ∧
      selection.select line sep = spans.map (Span.slice line) ∧
      steps ≤ line.count sep + 1 ∧
      (∀ s ∈ spans, s.start ≤ s.stop ∧ s.stop ≤ line.length) ∧
      spans.Pairwise (fun s t => s.stop < t.start) ∧
      spans.length ≤ selection.ranges.length := by
  obtain ⟨spans, steps, hw, hs, hord, hlen, hle⟩ :=
    walk?_spec sep (ordered_of_parse h) (fun _ _ => Nat.zero_le _) line.length.zero_le
  exact ⟨spans, steps, hw, hs, hle, hord.within, hord.apart, hlen⟩

/-- An empty field, and a field with the last number there can be: the end of the line is met in one
step more than there are separators. -/
theorem selects_within_far :
    parse "2,18446744073709551615".toList =
        .ok ⟨[⟨1, some 2⟩, ⟨18446744073709551614, some 18446744073709551615⟩]⟩ ∧
      walk? 44 (Bytes.ofString "a,,c") 0 0
        [⟨1, some 2⟩, ⟨18446744073709551614, some 18446744073709551615⟩] = some ([⟨2, 2⟩], 3) ∧
      (⟨[⟨1, some 2⟩, ⟨18446744073709551614, some 18446744073709551615⟩]⟩ :
        FieldSelection).select (Bytes.ofString "a,,c") 44 = [[]] := by
  have h : parse "2,18446744073709551615".toList =
      .ok ⟨[⟨1, some 2⟩, ⟨18446744073709551614, some 18446744073709551615⟩]⟩ :=
    parse_sorted rfl (by decide) rfl
  have hwalk : walk? 44 (Bytes.ofString "a,,c") 0 0
      [⟨1, some 2⟩, ⟨18446744073709551614, some 18446744073709551615⟩] = some ([⟨2, 2⟩], 3) := by
    decide +kernel
  obtain ⟨spans, steps, hw, hs, -⟩ := selects_within h (Bytes.ofString "a,,c") 44
  obtain ⟨rfl, rfl⟩ := Prod.mk.inj (Option.some.inj (hw.symm.trans hwalk))
  exact ⟨h, hwalk, hs⟩

end Coprocess.FieldSelection
