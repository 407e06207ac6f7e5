import Coprocess.Field
import Mathlib.Data.List.Basic
import Mathlib.Data.List.ModifyLast
import Mathlib.Data.List.TakeWhile
import Mathlib.Tactic.SplitIfs

/-!
# Selected fields

The fields of a line are the pieces between its separators: there is one more of them than there are
separators.

* `FieldSelection.Ordered`: ranges that are not empty, in increasing order, with gaps between them;
  **`FieldSelection.ordered_of_parse`**: the ranges of a field list are such;
* `FieldRange.part?`, `FieldSelection.parts`: what a range, and what all ranges, select of some
  fields;
* `FieldSelection.scanned`: the fields as the scan of a line meets them. A separator that ends the
  line belongs to the field before it, and there is no field after it;
* `FieldSelection.select_eq_parts`: what is selected are parts of the fields as they are scanned;
* **`FieldSelection.select_exact`**: these are the parts of the fields of the line unless a range
  begins or ends at the empty field that follows a final separator.
-/

namespace Coprocess

theorem Except.bind_eq_ok {ε α β : Type} {x : Except ε α} {f : α → Except ε β} {b : β}
    (h : x >>= f = .ok b) : ∃ a, x = .ok a ∧ f a = .ok b := by
  cases x with
  | error e => cases h
  | ok a => exact ⟨a, rfl, h⟩

theorem forall_of_mapM {ε α β : Type} {f : α → Except ε β} {P : β → Prop}
    (hf : ∀ a b, f a = .ok b → P b) {as : List α} {bs : List β} (h : as.mapM f = .ok bs) :
    ∀ b ∈ bs, P b := by
  induction as generalizing bs with
  | nil =>
    cases h
    exact fun _ hb => absurd hb List.not_mem_nil
  | cons a as ih =>
    rw [List.mapM_cons] at h
    obtain ⟨b, hb, h⟩ := Except.bind_eq_ok h
    obtain ⟨bs', hbs, h⟩ := Except.bind_eq_ok h
    cases h
    intro c hc
    rcases List.mem_cons.mp hc with rfl | hc
    · exact hf a c hb
    · exact ih hbs c hc

/-! ## The ranges of a field list -/

namespace FieldRange

/-- The range holds at least one field. -/
def Proper (r : FieldRange) : Prop := ∀ stop, r.stop = some stop → r.start < stop

/-- A field is left out between the end of the one range and the start of the other. -/
def Before (r r' : FieldRange) : Prop := ∃ stop, r.stop = some stop ∧ stop < r'.start

theorem proper_of_parsePart {part : List Char} {r : FieldRange} (h : parsePart part = .ok r) :
    r.Proper := by
  unfold parsePart at h
  split at h
  · obtain ⟨field, -, h⟩ := Except.bind_eq_ok h
    cases h
    rintro stop ⟨⟩
    exact Nat.lt_succ_self field
  · rename_i upper _
    have htail (start : Nat) (h : (do
        if upper.isEmpty then return ⟨start, none⟩
        let stop ← number upper
        if stop ≤ start then throw .emptyRange
        return ⟨start, some stop⟩ : Except FieldFault FieldRange) = .ok r) : r.Proper := by
      split_ifs at h
      · cases h
        rintro stop ⟨⟩
      · obtain ⟨stop, -, h⟩ := Except.bind_eq_ok h
        split_ifs at h with hs
        · cases h
        · cases h
          rintro stop ⟨⟩
          exact Nat.lt_of_not_le hs
    by_cases hl : (part.takeWhile (· ≠ '-')).isEmpty = true
    · rw [if_pos hl] at h
      exact htail 0 h
    · rw [if_neg hl] at h
      obtain ⟨start, -, h⟩ := Except.bind_eq_ok h
      exact htail start h

end FieldRange

namespace FieldSelection

open FieldRange (Proper Before)

/-- Ranges that are not empty, in increasing order, with gaps between them. -/
structure Ordered (ranges : List FieldRange) : Prop where
  proper : ∀ r ∈ ranges, r.Proper
  before : ranges.Pairwise Before

theorem ordered_of_join {last : FieldRange} {rs ranges : List FieldRange}
    (h : last.join rs = some ranges) (hlast : last.Proper) (hrs : ∀ r ∈ rs, r.Proper) :
    Ordered ranges ∧ ∀ r ∈ ranges, last.start ≤ r.start := by
  induction rs generalizing last ranges with
  | nil =>
    cases h
    refine ⟨⟨fun r hr => ?_, List.pairwise_singleton _ _⟩, fun r hr => ?_⟩ <;>
      obtain rfl := List.mem_singleton.mp hr
    · exact hlast
    · exact Nat.le_refl _
  | cons r rs ih =>
    have hr : r.Proper := hrs r List.mem_cons_self
    have hrs' : ∀ q ∈ rs, q.Proper := fun q hq => hrs q (List.mem_cons_of_mem r hq)
    unfold FieldRange.join at h
    cases hs : last.stop with
    | none =>
      rw [hs] at h
      cases h
    | some stop =>
      have hlt : last.start < stop := hlast stop hs
      simp only [hs] at h
      split_ifs at h with heq hgap
      · -- The two ranges touch and become one.
        have hone : FieldRange.Proper ⟨last.start, r.stop⟩ := fun stop' hs' =>
          Nat.lt_trans hlt (heq ▸ hr stop' hs')
        exact (ih h hone hrs' :)
      · obtain ⟨ranges', hj, rfl⟩ := Option.map_eq_some_iff.mp h
        obtain ⟨hord, hle⟩ := ih hj hr hrs'
        have hlater (q : FieldRange) (hq : q ∈ ranges') : stop < q.start :=
          Nat.lt_of_lt_of_le hgap (hle q hq)
        refine ⟨⟨fun q hq => ?_, List.pairwise_cons.mpr ⟨fun q hq => ⟨stop, hs, hlater q hq⟩,
          hord.before⟩⟩, fun q hq => ?_⟩
        · rcases List.mem_cons.mp hq with rfl | hq
          · exact hlast
          · exact hord.proper q hq
        · rcases List.mem_cons.mp hq with rfl | hq
          · exact Nat.le_refl _
          · exact Nat.le_of_lt (Nat.lt_trans hlt (hlater q hq))

/-- **A field list stands for ranges in order.** -/
theorem ordered_of_parse {list : List Char} {selection : FieldSelection}
    (h : parse list = .ok selection) : Ordered selection.ranges := by
  unfold parse at h
  obtain ⟨parts, hparts, h⟩ := Except.bind_eq_ok h
  have hproper : ∀ r ∈ parts, r.Proper := by
    refine forall_of_mapM (fun part r hr => ?_) hparts
    cases hp : FieldRange.parsePart part with
    | error e =>
      rw [hp] at hr
      cases hr
    | ok q =>
      rw [hp] at hr
      cases hr
      exact FieldRange.proper_of_parsePart hp
  split at h
  · cases h
    exact ⟨fun r hr => absurd hr List.not_mem_nil, List.Pairwise.nil⟩
  · rename_i first rest hsort
    have hmem : ∀ r ∈ first :: rest, r.Proper := fun r hr =>
      hproper r (List.mem_mergeSort.mp (hsort ▸ hr))
    split at h
    · rename_i ranges hj
      cases h
      exact (ordered_of_join hj (hmem first List.mem_cons_self) fun r hr =>
        hmem r (List.mem_cons_of_mem first hr)).1
    · cases h

theorem parse_sorted {list : List Char} {first : FieldRange} {rest ranges : List FieldRange}
    (hparts : (splitAt ',' list).mapM (fun part =>
      (FieldRange.parsePart part).mapError (Misuse.field part)) = .ok (first :: rest))
    (hsorted : (first :: rest).Pairwise fun a b => decide (a.start ≤ b.start) = true)
    (hjoin : first.join rest = some ranges) : parse list = .ok ⟨ranges⟩ := by
  unfold parse
  rw [hparts]
  simp only [bind, Except.bind, List.mergeSort_of_pairwise hsorted, hjoin]
  rfl

end FieldSelection

/-! ## Parts of a line -/

section Parts

variable {sep : UInt8} {fs fs' : List Bytes} {f : Bytes}

theorem intercalate_append (hfs : fs ≠ []) (hfs' : fs' ≠ []) :
    [sep].intercalate (fs ++ fs') = [sep].intercalate fs ++ sep :: [sep].intercalate fs' := by
  induction fs with
  | nil => exact absurd rfl hfs
  | cons g fs ih =>
    cases fs with
    | nil =>
      obtain ⟨g', fs', rfl⟩ := List.exists_cons_of_ne_nil hfs'
      rw [List.singleton_append, List.intercalate_cons_cons, List.intercalate_singleton,
        List.append_assoc, List.singleton_append]
    | cons g' fs =>
      rw [List.cons_append, List.cons_append, List.intercalate_cons_cons, ← List.cons_append,
        ih (List.cons_ne_nil _ _), List.intercalate_cons_cons]
      simp only [List.append_assoc]

/-- What follows in the last field follows in the line. -/
theorem intercalate_concat (fs : List Bytes) (f t : Bytes) :
    [sep].intercalate (fs ++ [f ++ t]) = [sep].intercalate (fs ++ [f]) ++ t := by
  by_cases hfs : fs = []
  · simp [hfs, List.intercalate_singleton]
  · rw [intercalate_append hfs (List.cons_ne_nil _ _),
      intercalate_append hfs (List.cons_ne_nil _ _), List.intercalate_singleton,
      List.intercalate_singleton, List.append_assoc, List.cons_append]

theorem intercalate_concat_nil (fs : List Bytes) (f : Bytes) :
    [sep].intercalate (fs ++ [f, []]) = [sep].intercalate (fs ++ [f ++ [sep]]) := by
  rw [List.append_cons, intercalate_append (List.append_ne_nil_of_right_ne_nil _ (by simp))
    (by simp), intercalate_concat, List.intercalate_singleton]

end Parts

/-- The fields of the range, with the separators between them; nothing if it begins after the last
field. -/
def FieldRange.part? (sep : UInt8) (fields : List Bytes) (r : FieldRange) : Option Bytes :=
  if r.start < fields.length then
    some ([sep].intercalate ((fields.take (r.stop.getD fields.length)).drop r.start))
  else none

theorem FieldRange.isSome_part?_iff {sep : UInt8} {fields : List Bytes} {r : FieldRange} :
    (r.part? sep fields).isSome ↔ r.start < fields.length := by
  unfold part?
  split_ifs with h <;> simp [h]

namespace FieldSelection

/-- What ranges select of some fields. -/
def parts (sep : UInt8) (fields : List Bytes) (ranges : List FieldRange) : List Bytes :=
  ranges.filterMap (FieldRange.part? sep fields)

/-- The fields as the scan of a line meets them: a final separator belongs to the last of them. -/
def scanned (sep : UInt8) (line : Bytes) : List Bytes :=
  if line.getLast? = some sep then (line.dropLast.splitOn sep).modifyLast (· ++ [sep])
  else line.splitOn sep

section Scan

variable {sep : UInt8} {s t f rest : Bytes}

theorem splitOn_of_not_mem (hs : sep ∉ s) : s.splitOn sep = [s] := by
  rw [List.splitOn_eq_splitOnP]
  exact List.splitOnP_eq_singleton fun b hb => beq_false_of_ne fun e => hs (e ▸ hb)

theorem splitOn_cons_separator (hf : sep ∉ f) (rest : Bytes) :
    (f ++ sep :: rest).splitOn sep = f :: rest.splitOn sep := by
  have hsplit := List.splitOnP_append_cons (p := (· == sep)) f rest (beq_self_eq_true sep)
  simp only [← List.splitOn_eq_splitOnP, splitOn_of_not_mem hf] at hsplit
  exact hsplit

theorem scanned_concat (s : Bytes) :
    scanned sep (s ++ [sep]) = (s.splitOn sep).modifyLast (· ++ [sep]) := by
  rw [scanned, if_pos (List.getLast?_concat ..), List.dropLast_concat]

theorem scanned_of_not_mem (hs : sep ∉ s) : scanned sep s = [s] := by
  rw [scanned, if_neg fun h => hs (List.mem_of_getLast? h), splitOn_of_not_mem hs]

theorem scanned_end (hf : sep ∉ f) : scanned sep (f ++ [sep]) = [f ++ [sep]] := by
  rw [scanned_concat, splitOn_of_not_mem hf]
  rfl

theorem scanned_cons (hf : sep ∉ f) (hrest : rest ≠ []) :
    scanned sep (f ++ sep :: rest) = f :: scanned sep rest := by
  have hlast : (f ++ sep :: rest).getLast? = rest.getLast? := by
    rw [List.append_cons, List.getLast?_append_of_ne_nil _ hrest]
  rw [scanned, scanned, hlast]
  split_ifs
  · rw [List.append_cons, List.dropLast_append_of_ne_nil hrest, ← List.append_cons,
      splitOn_cons_separator hf]
    exact List.modifyLast_append_of_right_ne_nil _ [f] _ (List.splitOn_ne_nil _ _)
  · exact splitOn_cons_separator hf rest

theorem dropField_append (hf : sep ∉ f) (rest : Bytes) :
    dropField sep (f ++ sep :: rest) = if rest = [] then none else some rest := by
  have hne : ∀ b ∈ f, decide (b ≠ sep) = true := fun b hb => decide_eq_true fun e => hf (e ▸ hb)
  have hdrop : (f ++ sep :: rest).dropWhile (· ≠ sep) = sep :: rest := by
    rw [List.dropWhile_append_of_pos hne]
    simp
  rw [dropField, hdrop]
  cases rest <;> rfl

theorem dropField_of_not_mem (hs : sep ∉ s) : dropField sep s = none := by
  have hdrop : s.dropWhile (· ≠ sep) = [] :=
    List.dropWhile_eq_nil_iff.mpr fun b hb => decide_eq_true fun e => hs (e ▸ hb)
  rw [dropField, hdrop]

theorem dropField_cases (sep : UInt8) (s : Bytes) :
    (dropField sep s = none ∧ scanned sep s = [s]) ∨
      ∃ f rest, rest ≠ [] ∧ s = f ++ sep :: rest ∧ dropField sep s = some rest ∧
        scanned sep s = f :: scanned sep rest := by
  by_cases hm : sep ∈ s
  · obtain ⟨f, rest, rfl, hf⟩ := List.eq_append_cons_of_mem hm
    rw [dropField_append hf rest]
    by_cases hrest : rest = []
    · subst hrest
      exact .inl ⟨if_pos rfl, scanned_end hf⟩
    · exact .inr ⟨f, rest, hrest, rfl, if_neg hrest, scanned_cons hf hrest⟩
  · exact .inl ⟨dropField_of_not_mem hm, scanned_of_not_mem hm⟩

theorem intercalate_scanned (s : Bytes) : [sep].intercalate (scanned sep s) = s := by
  rcases dropField_cases sep s with ⟨-, hs⟩ | ⟨f, rest, hrest, hs, -, hscan⟩
  · rw [hs, List.intercalate_singleton]
  · have ih := intercalate_scanned rest
    rw [hscan]
    cases hr : scanned sep rest with
    | nil =>
      rw [hr] at ih
      exact absurd ih.symm hrest
    | cons g gs => rw [List.intercalate_cons_cons, ← hr, ih, hs, ← List.append_cons]
termination_by s.length
decreasing_by simp [hs]; omega

theorem scanned_ne_nil (s : Bytes) : scanned sep s ≠ [] := by
  rcases dropField_cases sep s with ⟨-, hs⟩ | ⟨f, rest, -, -, -, hs⟩ <;> simp [hs]

/-- **What is left after `n` fields** are the other fields, if there are some. -/
theorem skipFields_cases (sep : UInt8) (n : Nat) (s : Bytes) :
    (skipFields sep n s = none ∧ (scanned sep s).length ≤ n) ∨
      ∃ t, skipFields sep n s = some t ∧ n < (scanned sep s).length ∧
        scanned sep t = (scanned sep s).drop n := by
  induction n generalizing s with
  | zero => exact .inr ⟨s, rfl, List.length_pos_iff.mpr (scanned_ne_nil s), rfl⟩
  | succ n ih =>
    rw [skipFields]
    rcases dropField_cases sep s with ⟨hd, hs⟩ | ⟨f, rest, -, -, hd, hs⟩
    · exact .inl ⟨by rw [hd]; rfl, by simp [hs]⟩
    · rw [hd, hs, Option.bind_some, List.length_cons, List.drop_succ_cons]
      rcases ih rest with ⟨hr, hle⟩ | ⟨t, hr, hlt, ht⟩
      · exact .inl ⟨hr, Nat.succ_le_succ hle⟩
      · exact .inr ⟨t, hr, Nat.succ_lt_succ hlt, ht⟩

end Scan

/-! ## The scan of a line -/

section Slices

variable {sep : UInt8} {fields : List Bytes}

theorem parts_eq_nil {ranges : List FieldRange} (h : ∀ r ∈ ranges, fields.length ≤ r.start) :
    parts sep fields ranges = [] := by
  refine List.filterMap_eq_nil_iff.mpr fun r hr => ?_
  rw [← Option.not_isSome_iff_eq_none, FieldRange.isSome_part?_iff]
  exact Nat.not_lt.mpr (h r hr)

theorem take_slice {s t : Bytes} {a b : List Bytes} (ha : a ≠ []) (hb : b ≠ [])
    (hs : [sep].intercalate (a ++ b) = s) (ht : [sep].intercalate b = t) :
    s.take (s.length - t.length - 1) = [sep].intercalate a := by
  rw [← hs, intercalate_append ha hb, ht]
  refine List.take_left' ?_
  rw [List.length_append, List.length_cons]
  omega

/-- **What the first range gives**, when the scan stands at field `index` and the range does not
begin before it: nothing, because the line has no such field; or its part, which goes on to the end
of the line or ends at a place where the scan goes on. -/
theorem slices_cons_cases {index : Nat} {s : Bytes} {r : FieldRange}
    (hs : scanned sep s = fields.drop index) (hr : index ≤ r.start) (hproper : r.Proper)
    (rs : List FieldRange) :
    (fields.length ≤ r.start ∧ slices sep index s (r :: rs) = []) ∨
      ∃ part, r.part? sep fields = some part ∧
        ((∀ stop, r.stop = some stop → fields.length ≤ stop) ∧
            slices sep index s (r :: rs) = [part] ∨
          ∃ stop u, r.stop = some stop ∧ scanned sep u = fields.drop stop ∧
            slices sep index s (r :: rs) = part :: slices sep stop u rs) := by
  rw [slices]
  rcases skipFields_cases sep (r.start - index) s with ⟨hskip, hlen⟩ | ⟨t, hskip, hlen, ht⟩ <;>
    rw [hs, List.length_drop] at hlen
  · exact .inl ⟨by omega, by rw [hskip]⟩
  have hstart : r.start < fields.length := by omega
  have ht : scanned sep t = fields.drop r.start := by
    rw [ht, hs, List.drop_drop]
    congr 1
    omega
  have hwhole : [sep].intercalate (fields.drop r.start) = t := ht ▸ intercalate_scanned t
  refine .inr ⟨_, if_pos hstart, ?_⟩
  simp only [hskip]
  cases hstop : r.stop with
  | none =>
    refine .inl ⟨fun _ h => (nomatch h), ?_⟩
    rw [Option.getD_none, List.take_length, hwhole]
  | some stop =>
    have hlt : r.start < stop := hproper stop hstop
    simp only [Option.getD_some]
    rcases skipFields_cases sep (stop - r.start) t with ⟨hskip', hlen'⟩ | ⟨u, hskip', hlen', hu⟩ <;>
      rw [ht, List.length_drop] at hlen'
    · have hle : fields.length ≤ stop := by omega
      refine .inl ⟨fun stop' h => Option.some.inj h ▸ hle, ?_⟩
      rw [hskip', List.take_of_length_le hle, hwhole]
    · have hu : scanned sep u = fields.drop stop := by
        rw [hu, ht, List.drop_drop]
        congr 1
        omega
      have hsplit : (fields.take stop).drop r.start ++ fields.drop stop =
          fields.drop r.start := by
        rw [← List.drop_append_of_le_length (by simp; omega), List.take_append_drop]
      refine .inr ⟨stop, u, rfl, hu, ?_⟩
      simp only [hskip']
      rw [take_slice _ _ (hsplit ▸ hwhole) (hu ▸ intercalate_scanned u)]
      · rw [Ne, ← List.length_eq_zero_iff, List.length_drop, List.length_take]
        omega
      · rw [Ne, ← List.length_eq_zero_iff, List.length_drop]
        omega

/-- **Slices are parts.** The scan stands at field `index`, and no range begins before it. -/
theorem slices_eq_parts {ranges : List FieldRange} (h : Ordered ranges) {index : Nat} {s : Bytes}
    (hs : scanned sep s = fields.drop index) (hindex : ∀ r ∈ ranges, index ≤ r.start) :
    slices sep index s ranges = parts sep fields ranges := by
  induction ranges generalizing index s with
  | nil => rfl
  | cons r rs ih =>
    obtain ⟨hbefore, hrs⟩ := List.pairwise_cons.mp h.before
    have hproper := h.proper r List.mem_cons_self
    have hlater {n : Nat} (hn : ∀ stop, r.stop = some stop → n ≤ stop) :
        ∀ q ∈ rs, n ≤ q.start := by
      intro q hq
      obtain ⟨stop, hstop, hlt⟩ := hbefore q hq
      exact Nat.le_trans (hn stop hstop) (Nat.le_of_lt hlt)
    rcases slices_cons_cases hs (hindex r List.mem_cons_self) hproper rs with
      ⟨hlen, he⟩ | ⟨part, hpart, ⟨hlen, he⟩ | ⟨stop, u, hstop, hu, he⟩⟩
    · rw [he, parts_eq_nil]
      refine List.forall_mem_cons.mpr ⟨hlen, hlater fun stop hstop => ?_⟩
      exact hlen.trans (Nat.le_of_lt (hproper stop hstop))
    · rw [he, parts, List.filterMap_cons_some hpart, ← parts, parts_eq_nil (hlater hlen)]
    · rw [he, parts, List.filterMap_cons_some hpart, ← parts,
        ih ⟨fun q hq => h.proper q (List.mem_cons_of_mem r hq), hrs⟩ hu]
      exact hlater fun stop' h => Option.some.inj (hstop.symm.trans h) ▸ Nat.le_refl stop

/-- What is selected are parts of the fields as they are scanned. -/
theorem select_eq_parts {selection : FieldSelection} (h : Ordered selection.ranges) (sep : UInt8)
    (line : Bytes) :
    selection.select line sep = parts sep (scanned sep line) selection.ranges :=
  slices_eq_parts h rfl fun _ _ => Nat.zero_le _

end Slices

/-! ## A separator at the end of a line -/

section Final

variable {sep : UInt8} {r : FieldRange}

theorem length_splitOn (sep : UInt8) (s : Bytes) :
    (s.splitOn sep).length = s.count sep + 1 := by
  induction s with
  | nil => rfl
  | cons b s ih =>
    rw [List.splitOn_eq_splitOnP] at ih ⊢
    rw [List.splitOnP_cons_eq_if_modifyHead, List.count_cons]
    split_ifs with h
    · rw [List.length_cons, ih]
    · rw [List.length_modifyHead, ih, Nat.add_zero]

theorem fields_concat (sep : UInt8) (s : Bytes) :
    ∃ (fs : List Bytes) (f : Bytes), (s ++ [sep]).splitOn sep = fs ++ [f, []] ∧
      scanned sep (s ++ [sep]) = fs ++ [f ++ [sep]] := by
  have hsplit := List.splitOnP_append_cons (p := (· == sep)) s [] (beq_self_eq_true sep)
  simp only [← List.splitOn_eq_splitOnP] at hsplit
  rw [scanned_concat, hsplit, ← List.dropLast_concat_getLast (List.splitOn_ne_nil sep s),
    List.modifyLast_concat]
  exact ⟨_, _, List.append_assoc .., rfl⟩

/-- **A range selects the same** of the fields and of the fields that are met, unless it begins or
ends at the empty field behind the final separator. -/
theorem part?_concat_iff (fs : List Bytes) (f : Bytes) (hr : r.Proper) :
    r.part? sep (fs ++ [f ++ [sep]]) = r.part? sep (fs ++ [f, []]) ↔
      r.start ≠ fs.length + 1 ∧ r.stop ≠ some (fs.length + 1) := by
  have hlen : (fs ++ [f ++ [sep]]).length = fs.length + 1 := by simp
  have hlen' : (fs ++ [f, []]).length = fs.length + 2 := by simp
  have hdrop (h : r.start ≤ fs.length) (gs : List Bytes) :
      (fs ++ gs).drop r.start = fs.drop r.start ++ gs := List.drop_append_of_le_length h
  rcases Nat.lt_trichotomy r.start (fs.length + 1) with hlt | heq | hgt
  · have hle : r.start ≤ fs.length := Nat.le_of_lt_succ hlt
    rw [FieldRange.part?, FieldRange.part?, if_pos (by omega), if_pos (by omega),
      Option.some_inj]
    rcases hstop : r.stop with _ | stop
    · -- The range is open.
      rw [Option.getD_none, Option.getD_none, List.take_length, List.take_length, hdrop hle,
        hdrop hle, intercalate_concat_nil]
      simp [Nat.ne_of_lt hlt]
    rw [Option.getD_some, Option.getD_some]
    rcases Nat.lt_trichotomy stop (fs.length + 1) with hs | rfl | hs
    · rw [List.take_append_of_le_length (by omega), List.take_append_of_le_length (by omega)]
      simp [Nat.ne_of_lt hlt, Nat.ne_of_lt hs]
    · -- The final separator is all that they differ in.
      have htake : (fs ++ [f, []]).take (fs.length + 1) = fs ++ [f] := by
        rw [List.append_cons]
        exact List.take_left' (by simp)
      rw [List.take_of_length_le hlen.le, htake, hdrop hle, hdrop hle, intercalate_concat]
      simp
    · rw [List.take_of_length_le (by omega), List.take_of_length_le (by omega), hdrop hle,
        hdrop hle, intercalate_concat_nil]
      simp [Nat.ne_of_lt hlt, Nat.ne_of_gt hs]
  · rw [FieldRange.part?, FieldRange.part?, if_neg (by omega), if_pos (by omega)]
    simp [heq]
  · rw [FieldRange.part?, FieldRange.part?, if_neg (by omega), if_neg (by omega)]
    simp only [true_iff]
    refine ⟨by omega, fun hstop => ?_⟩
    have := hr _ hstop
    omega

/-- Where one choice finds something whenever the other does, they find the same in a list only if
they find the same in each member. -/
theorem eq_of_filterMap_eq {α β : Type} {f g : α → Option β} {as : List α}
    (hfg : ∀ a ∈ as, (f a).isSome → (g a).isSome) (h : as.filterMap f = as.filterMap g) :
    ∀ a ∈ as, f a = g a := by
  induction as with
  | nil => exact fun _ ha => absurd ha List.not_mem_nil
  | cons a as ih =>
    obtain ⟨ha, has⟩ := List.forall_mem_cons.mp hfg
    cases hf : f a with
    | some b =>
      obtain ⟨c, hg⟩ := Option.isSome_iff_exists.mp (ha (by rw [hf]; rfl))
      rw [List.filterMap_cons_some hf, List.filterMap_cons_some hg, List.cons.injEq] at h
      exact List.forall_mem_cons.mpr ⟨by rw [hf, hg, h.1], ih has h.2⟩
    | none =>
      rw [List.filterMap_cons_none hf] at h
      cases hg : g a with
      | none =>
        rw [List.filterMap_cons_none hg] at h
        exact List.forall_mem_cons.mpr ⟨by rw [hf, hg], ih has h⟩
      | some c =>
        -- The second choice would have found more.
        rw [List.filterMap_cons_some hg] at h
        have hlen := congrArg List.length h
        have hle : (as.filterMap f).length ≤ (as.filterMap g).length := by
          rw [List.length_filterMap_eq_countP, List.length_filterMap_eq_countP]
          exact List.countP_mono_left has
        rw [List.length_cons] at hlen
        omega

end Final

/-- **What is selected of a line**: for each range in turn that begins at a field, the fields up to
its end or to the last one, with the separators between them. This fails exactly when the line ends
with a separator and a range begins or ends at the empty field after it: the scan does not meet that
field, and gives the separator to the field before. -/
theorem select_exact {list : List Char} {selection : FieldSelection}
    (h : parse list = .ok selection) (line : Bytes) (sep : UInt8) :
    (line.splitOn sep).length = line.count sep + 1 ∧
    (selection.select line sep = parts sep (line.splitOn sep) selection.ranges ↔
      ¬ (line.getLast? = some sep ∧
        ∃ r ∈ selection.ranges, r.start = line.count sep ∨ r.stop = some (line.count sep))) ∧
    ∀ body, line = body ++ [sep] → selection.select line sep =
      parts sep ((body.splitOn sep).modifyLast (· ++ [sep])) selection.ranges := by
  have hord := ordered_of_parse h
  rw [select_eq_parts hord]
  refine ⟨length_splitOn sep line, ?_, fun body hline => by rw [hline, scanned_concat]⟩
  by_cases hlast : line.getLast? = some sep
  · obtain ⟨body, rfl⟩ := List.getLast?_eq_some_iff.mp hlast
    obtain ⟨fs, f, hfields, hscanned⟩ := fields_concat sep body
    have hcount : (body ++ [sep]).count sep = fs.length + 1 := by
      have hlen := length_splitOn sep (body ++ [sep])
      rw [hfields, List.length_append] at hlen
      exact (Nat.succ.inj hlen).symm
    have hiff (r : FieldRange) (hr : r ∈ selection.ranges) :
        r.part? sep (fs ++ [f ++ [sep]]) = r.part? sep (fs ++ [f, []]) ↔
          r.start ≠ fs.length + 1 ∧ r.stop ≠ some (fs.length + 1) :=
      part?_concat_iff fs f (hord.proper r hr)
    rw [hfields, hscanned, hcount]
    constructor
    · rintro he ⟨-, r, hr, hat⟩
      have heq := eq_of_filterMap_eq (fun q _ hq => ?_) he r hr
      · obtain ⟨hstart, hstop⟩ := (hiff r hr).mp heq
        exact hat.elim hstart hstop
      · rw [FieldRange.isSome_part?_iff, List.length_append] at hq ⊢
        exact Nat.lt_succ_of_lt hq
    · intro hnot
      refine List.filterMap_congr fun r hr => (hiff r hr).mpr ?_
      exact ⟨fun e => hnot ⟨hlast, r, hr, .inl e⟩, fun e => hnot ⟨hlast, r, hr, .inr e⟩⟩
  · rw [scanned, if_neg hlast]
    exact iff_of_true rfl fun hat => hlast hat.1

/-- An empty field in the middle, and a range that goes on beyond the last field. -/
theorem select_exact_open :
    parse "2,4-".toList = .ok ⟨[⟨1, some 2⟩, ⟨3, none⟩]⟩ ∧
      (⟨[⟨1, some 2⟩, ⟨3, none⟩]⟩ : FieldSelection).select (Bytes.ofString "a,,c,,e") 44 =
        [[], [44, 101]] := by
  have h : parse "2,4-".toList = .ok ⟨[⟨1, some 2⟩, ⟨3, none⟩]⟩ :=
    parse_sorted rfl (by decide) rfl
  refine ⟨h, ?_⟩
  rw [((select_exact h (Bytes.ofString "a,,c,,e") 44).2.1).mpr (by decide +kernel)]
  decide +kernel

/-- The first of two fields is not selected alone when the second is empty. -/
theorem select_final_separator :
    ¬ ∀ (list : List Char) (selection : FieldSelection), parse list = .ok selection →
      ∀ (line : Bytes) (sep : UInt8),
        selection.select line sep = parts sep (line.splitOn sep) selection.ranges := by
  intro h
  have hparse : parse ['1'] = .ok ⟨[⟨0, some 1⟩]⟩ := parse_sorted rfl (by decide) rfl
  exact absurd (h ['1'] _ hparse [97, 9] 9) (by decide +kernel)

end FieldSelection

end Coprocess
