import Coprocess.Proofs.Field.Selecting
import Coprocess.Proofs.KeyedLists
import Coprocess.Proofs.Text.Numbers
import Mathlib.Data.List.Perm.Basic

/-!
# What a field list covers

A field list stands for a set of fields, and is put into the one normal form of this set.

* `FieldRange.Written`: the parts of a field list and the ranges that they stand for, which are
  those that are read;
* `FieldRange.Covers`, `FieldSelection.Covered`: the fields in a range, and in some of many;
* `FieldSelection.join_spec`: ranges are joined exactly if no two overlap, and no field is lost;
* **`FieldSelection.Ordered.unique`**: ranges in order are determined by the fields that they cover;
* `FieldSelection.Sound`, `FieldSelection.Divides`: parts that name no field twice, and parts that
  together name what one part names;
* **`FieldSelection.parse_normal_form`**: a field list is accepted exactly if it is sound, and its
  ranges depend on nothing but the fields that it names.
-/

namespace Coprocess

/-! ## Parts of a field list -/

theorem splitAt_eq_splitOn (c : Char) (text : List Char) : splitAt c text = text.splitOn c := by
  induction text with
  | nil => rfl
  | cons d text ih =>
    rw [splitAt] at ih ⊢
    rw [List.foldr_cons, ih, List.splitOn_eq_splitOnP, List.splitOn_eq_splitOnP,
      List.splitOnP_cons_eq_if_modifyHead]
    simp only [beq_iff_eq]
    split_ifs
    · rfl
    · cases hs : List.splitOnP (· == c) text with
      | nil => exact absurd hs (List.splitOnP_ne_nil _ _)
      | cons piece rest => rfl

namespace FieldRange

theorem number_eq_ok_iff {text : List Char} {n : Nat} :
    number text = .ok n ↔ Decimal.word? text = some n := by
  unfold number
  cases Decimal.word? text <;> simp

theorem index_eq_ok_iff {text : List Char} {i : Nat} :
    index text = .ok i ↔ Decimal.word? text = some (i + 1) := by
  constructor
  · intro h
    obtain ⟨n, hn, h⟩ := Except.bind_eq_ok h
    rw [number_eq_ok_iff] at hn
    cases n with
    | zero => cases h
    | succ n =>
      cases h
      exact hn
  · intro h
    rw [← number_eq_ok_iff] at h
    rw [index, h]
    rfl

theorem lower_eq_ok_iff {a : List Char} {start : Nat} :
    (if a.isEmpty then pure 0 else index a : Except FieldFault Nat) = .ok start ↔
      a = [] ∧ start = 0 ∨ Decimal.word? a = some (start + 1) := by
  cases a with
  | nil =>
    have hnone : Decimal.word? [] = none := rfl
    simp [hnone, pure, Except.pure, eq_comm]
  | cons c a => simp [index_eq_ok_iff]

theorem parsePart_of_not_mem {part : List Char} (h : '-' ∉ part) :
    parsePart part = do
      let field ← index part
      return ⟨field, some (field + 1)⟩ := by
  have hdrop : part.dropWhile (· ≠ '-') = [] :=
    List.dropWhile_eq_nil_iff.mpr fun c hc => decide_eq_true fun e => h (e ▸ hc)
  rw [parsePart, hdrop]

theorem parsePart_minus {a b : List Char} (h : '-' ∉ a) :
    parsePart (a ++ '-' :: b) =
      (if a.isEmpty then pure 0 else index a) >>= fun start =>
        if b.isEmpty then .ok ⟨start, none⟩
        else number b >>= fun stop =>
          if stop ≤ start then .error .emptyRange else .ok ⟨start, some stop⟩ := by
  have hne : ∀ c ∈ a, decide (c ≠ '-') = true := fun c hc => decide_eq_true fun e => h (e ▸ hc)
  have hdrop : (a ++ '-' :: b).dropWhile (· ≠ '-') = '-' :: b := by
    rw [List.dropWhile_append_of_pos hne]
    simp
  have htake : (a ++ '-' :: b).takeWhile (· ≠ '-') = a := by
    rw [List.takeWhile_append_of_pos hne]
    simp
  rw [parsePart, hdrop]
  simp only [htake]
  split_ifs <;> rfl

/-- **A part of a field list and the range that it stands for.** Fields are numbered from 1. -/
inductive Written : List Char → FieldRange → Prop
  | field {part : List Char} {n : Nat} (h : Decimal.word? part = some n) (hn : 1 ≤ n) :
      Written part ⟨n - 1, some n⟩
  | between {a b : List Char} {n m : Nat} (ha : Decimal.word? a = some n)
      (hb : Decimal.word? b = some m) (hn : 1 ≤ n) (hm : n ≤ m) :
      Written (a ++ '-' :: b) ⟨n - 1, some m⟩
  | onward {a : List Char} {n : Nat} (ha : Decimal.word? a = some n) (hn : 1 ≤ n) :
      Written (a ++ ['-']) ⟨n - 1, none⟩
  | upTo {b : List Char} {m : Nat} (hb : Decimal.word? b = some m) (hm : 1 ≤ m) :
      Written ('-' :: b) ⟨0, some m⟩
  | all : Written ['-'] ⟨0, none⟩

theorem written_of_parsePart {part : List Char} {r : FieldRange} (h : parsePart part = .ok r) :
    Written part r := by
  by_cases hm : '-' ∈ part
  · obtain ⟨a, b, rfl, ha⟩ := List.eq_append_cons_of_mem hm
    rw [parsePart_minus ha] at h
    obtain ⟨start, hstart, h⟩ := Except.bind_eq_ok h
    rw [lower_eq_ok_iff] at hstart
    cases b with
    | nil =>
      cases h
      rcases hstart with ⟨rfl, rfl⟩ | hstart
      · exact .all
      · exact .onward hstart (Nat.succ_pos start)
    | cons c b =>
      obtain ⟨stop, hstop, h⟩ := Except.bind_eq_ok h
      rw [number_eq_ok_iff] at hstop
      split_ifs at h with hle
      cases h
      have hlt : start < stop := Nat.lt_of_not_le hle
      rcases hstart with ⟨rfl, rfl⟩ | hstart
      · exact .upTo hstop hlt
      · exact .between hstart hstop (Nat.succ_pos start) hlt
  · rw [parsePart_of_not_mem hm] at h
    obtain ⟨field, hfield, h⟩ := Except.bind_eq_ok h
    cases h
    exact .field (index_eq_ok_iff.mp hfield) (Nat.succ_pos field)

theorem parsePart_of_written {part : List Char} {r : FieldRange} (h : Written part r) :
    parsePart part = .ok r := by
  have hupper {a b : List Char} {start stop : Nat} (ha : '-' ∉ a)
      (hstart : a = [] ∧ start = 0 ∨ Decimal.word? a = some (start + 1))
      (hb : Decimal.word? b = some stop) (hlt : start < stop) :
      parsePart (a ++ '-' :: b) = .ok ⟨start, some stop⟩ := by
    have hne : b.isEmpty = false := by
      cases b with
      | nil => cases hb
      | cons c b => rfl
    rw [parsePart_minus ha, lower_eq_ok_iff.mpr hstart, number_eq_ok_iff.mpr hb, hne]
    simp [bind, Except.bind, Nat.not_le.mpr hlt]
  cases h with
  | @field _ n h hn =>
    obtain ⟨i, rfl⟩ := Nat.exists_eq_succ_of_ne_zero (Nat.ne_of_gt hn)
    rw [parsePart_of_not_mem (Decimal.minus_not_mem h), index_eq_ok_iff.mpr h]
    rfl
  | @between a b n m ha hb hn hm =>
    obtain ⟨i, rfl⟩ := Nat.exists_eq_succ_of_ne_zero (Nat.ne_of_gt hn)
    exact hupper (Decimal.minus_not_mem ha) (.inr ha) hb hm
  | @onward a n ha hn =>
    obtain ⟨i, rfl⟩ := Nat.exists_eq_succ_of_ne_zero (Nat.ne_of_gt hn)
    rw [parsePart_minus (Decimal.minus_not_mem ha), lower_eq_ok_iff.mpr (.inr ha)]
    rfl
  | upTo hb hm => exact hupper List.not_mem_nil (.inl ⟨rfl, rfl⟩) hb hm
  | all => rfl

theorem Written.unique {part : List Char} {r r' : FieldRange} (h : Written part r)
    (h' : Written part r') : r = r' :=
  Except.ok.inj ((parsePart_of_written h).symm.trans (parsePart_of_written h'))

/-! ## Fields in ranges -/

/-- The field at `i`, counted from 0, lies in the range. -/
def Covers (r : FieldRange) (i : Nat) : Prop := r.start ≤ i ∧ ∀ stop, r.stop = some stop → i < stop

/-- The ranges have no field in common. -/
def Apart (r r' : FieldRange) : Prop := ∀ i, r.Covers i → ¬ r'.Covers i

theorem Apart.symm {r r' : FieldRange} (h : r.Apart r') : r'.Apart r := fun i hr' hr => h i hr hr'

theorem Proper.covers_start {r : FieldRange} (h : r.Proper) : r.Covers r.start := ⟨Nat.le_refl _, h⟩

theorem Written.proper {part : List Char} {r : FieldRange} (h : Written part r) : r.Proper :=
  proper_of_parsePart (parsePart_of_written h)

end FieldRange

namespace FieldSelection

open FieldRange (Proper Before Written Covers Apart)

/-- Some range covers the field at `i`. -/
def Covered (rs : List FieldRange) (i : Nat) : Prop := ∃ r ∈ rs, r.Covers i

theorem covered_cons {r : FieldRange} {rs : List FieldRange} {i : Nat} :
    Covered (r :: rs) i ↔ r.Covers i ∨ Covered rs i := by
  simp [Covered]

/-! ## Joining -/

theorem covers_join {r r' : FieldRange} (hr : r.Proper) (hr' : r'.Proper)
    (h : r.stop = some r'.start) (i : Nat) :
    Covers ⟨r.start, r'.stop⟩ i ↔ r.Covers i ∨ r'.Covers i := by
  have hlt := hr _ h
  constructor
  · rintro ⟨hle, hstop⟩
    by_cases hi : i < r'.start
    · exact .inl ⟨hle, fun stop e => Option.some.inj (h.symm.trans e) ▸ hi⟩
    · exact .inr ⟨Nat.le_of_not_lt hi, hstop⟩
  · rintro (⟨hle, hi⟩ | ⟨hle, hstop⟩)
    · have hi := hi _ h
      exact ⟨hle, fun stop e => hi.trans (hr' stop e)⟩
    · exact ⟨(Nat.le_of_lt hlt).trans hle, hstop⟩

theorem apart_of_le {r r' : FieldRange} {stop : Nat} (h : r.stop = some stop)
    (hle : stop ≤ r'.start) :
    r.Apart r' := fun _ hr hr' =>
  absurd (hr.2 stop h) (Nat.not_lt.mpr (hle.trans hr'.1))

/-- **Ranges in order are joined exactly if no two of them overlap**, and then the joined ranges
cover the same fields. -/
theorem join_spec {last : FieldRange} {rs : List FieldRange} (hlast : last.Proper)
    (hrs : ∀ r ∈ rs, r.Proper) (hsorted : (last :: rs).Pairwise fun a b => a.start ≤ b.start) :
    ((last.join rs).isSome ↔ (last :: rs).Pairwise Apart) ∧
      ∀ ranges, last.join rs = some ranges → ∀ i, Covered ranges i ↔ Covered (last :: rs) i := by
  induction rs generalizing last with
  | nil =>
    refine ⟨by simp [FieldRange.join], ?_⟩
    rintro ranges ⟨⟩ i
    rfl
  | cons r rs ih =>
    obtain ⟨hr, hrs⟩ := List.forall_mem_cons.mp hrs
    obtain ⟨hfirst, hrest⟩ := List.pairwise_cons.mp hsorted
    obtain ⟨hle, hall⟩ := List.forall_mem_cons.mp hfirst
    -- The range starts inside the one before it.
    have hoverlap (h : ∀ stop, last.stop = some stop → r.start < stop) :
        ¬ (last :: r :: rs).Pairwise Apart := fun hp =>
      (List.pairwise_cons.mp hp).1 r List.mem_cons_self r.start ⟨hle, h⟩ hr.covers_start
    unfold FieldRange.join
    cases hs : last.stop with
    | none =>
      refine ⟨iff_of_false (by simp) (hoverlap fun stop e => ?_), fun ranges h => nomatch h⟩
      cases hs.symm.trans e
    | some stop =>
      simp only
      rcases Nat.lt_trichotomy stop r.start with hlt | rfl | hgt
      · rw [if_neg (Nat.ne_of_lt hlt), if_pos hlt]
        obtain ⟨hiff, hcov⟩ := ih hr hrs hrest
        have hapart : ∀ q ∈ r :: rs, last.Apart q := by
          intro q hq
          refine apart_of_le hs ((Nat.le_of_lt hlt).trans ?_)
          rcases List.mem_cons.mp hq with rfl | hq
          · exact Nat.le_refl _
          · exact (List.pairwise_cons.mp hrest).1 q hq
        refine ⟨?_, fun ranges h i => ?_⟩
        · rw [Option.map_eq_map, Option.isSome_map, hiff, List.pairwise_cons (a := last)]
          exact ⟨fun h => ⟨hapart, h⟩, fun h => h.2⟩
        · obtain ⟨ranges, hj, rfl⟩ := Option.map_eq_some_iff.mp h
          rw [covered_cons, covered_cons, hcov ranges hj]
      · rw [if_pos rfl]
        have hone : Proper ⟨last.start, r.stop⟩ := fun stop' e => (hlast _ hs).trans (hr stop' e)
        have hsorted' : (⟨last.start, r.stop⟩ :: rs : List FieldRange).Pairwise
            fun a b => a.start ≤ b.start :=
          List.pairwise_cons.mpr ⟨hall, (List.pairwise_cons.mp hrest).2⟩
        obtain ⟨hiff, hcov⟩ := ih hone hrs hsorted'
        have hjoin := covers_join hlast hr hs
        refine ⟨?_, fun ranges h i => ?_⟩
        · rw [hiff, List.pairwise_cons, List.pairwise_cons, List.pairwise_cons,
            List.forall_mem_cons]
          have hapart (q : FieldRange) :
              Apart ⟨last.start, r.stop⟩ q ↔ last.Apart q ∧ r.Apart q := by
            simp only [Apart, hjoin, or_imp, forall_and]
          simp only [hapart]
          constructor
          · rintro ⟨h, hp⟩
            exact ⟨⟨apart_of_le hs (Nat.le_refl _), fun q hq => (h q hq).1⟩,
              fun q hq => (h q hq).2, hp⟩
          · rintro ⟨⟨-, hl⟩, hr, hp⟩
            exact ⟨fun q hq => ⟨hl q hq, hr q hq⟩, hp⟩
        · rw [hcov ranges h, covered_cons, covered_cons, covered_cons, hjoin, or_assoc]
      · rw [if_neg (Nat.ne_of_gt hgt), if_neg (Nat.not_lt.mpr (Nat.le_of_lt hgt))]
        refine ⟨iff_of_false (by simp) (hoverlap fun stop' e => ?_), fun ranges h => nomatch h⟩
        rwa [← Option.some.inj (hs.symm.trans e)]

/-! ## Uniqueness -/

section Ordered

variable {r r' : FieldRange} {rs rs' : List FieldRange} {i stop : Nat}

theorem Ordered.tail (h : Ordered (r :: rs)) : Ordered rs :=
  ⟨fun q hq => h.proper q (List.mem_cons_of_mem r hq), (List.pairwise_cons.mp h.before).2⟩

theorem Ordered.lt_of_covered (h : Ordered (r :: rs)) (hs : r.stop = some stop)
    (hi : Covered rs i) :
    stop < i := by
  obtain ⟨q, hq, hle, -⟩ := hi
  obtain ⟨stop', hs', hlt⟩ := (List.pairwise_cons.mp h.before).1 q hq
  obtain rfl := Option.some.inj (hs.symm.trans hs')
  exact hlt.trans_le hle

theorem Ordered.stop_of_covered (h : Ordered (r :: rs)) (hi : Covered rs i) :
    ∃ stop, r.stop = some stop := by
  obtain ⟨q, hq, -⟩ := hi
  obtain ⟨stop, hs, -⟩ := (List.pairwise_cons.mp h.before).1 q hq
  exact ⟨stop, hs⟩

theorem Ordered.start_le (h : Ordered (r :: rs)) (hi : Covered (r :: rs) i) : r.start ≤ i := by
  rcases covered_cons.mp hi with hi | hi
  · exact hi.1
  · obtain ⟨stop, hs⟩ := h.stop_of_covered hi
    exact (Nat.le_of_lt (h.proper r List.mem_cons_self stop hs)).trans
      (Nat.le_of_lt (h.lt_of_covered hs hi))

theorem Ordered.not_covered_stop (h : Ordered (r :: rs)) (hs : r.stop = some stop) :
    ¬ Covered (r :: rs) stop := by
  intro hi
  rcases covered_cons.mp hi with hi | hi
  · exact Nat.lt_irrefl stop (hi.2 stop hs)
  · exact Nat.lt_irrefl stop (h.lt_of_covered hs hi)

theorem Ordered.covered_tail_iff (h : Ordered (r :: rs)) :
    Covered rs i ↔ Covered (r :: rs) i ∧ ¬ r.Covers i := by
  rw [covered_cons]
  refine ⟨fun hi => ⟨.inr hi, fun hr => ?_⟩, fun ⟨hi, hr⟩ => hi.resolve_left hr⟩
  obtain ⟨stop, hs⟩ := h.stop_of_covered hi
  exact Nat.lt_asymm (hr.2 stop hs) (h.lt_of_covered hs hi)

theorem Ordered.stop_le (h : Ordered (r :: rs)) (hstart : r.start = r'.start)
    (hcov : ∀ i, Covered (r :: rs) i ↔ Covered (r' :: rs') i) (hs : r.stop = some stop) :
    ∃ stop', r'.stop = some stop' ∧ stop' ≤ stop := by
  have hlt : r'.start < stop := hstart ▸ h.proper r List.mem_cons_self stop hs
  by_contra hno
  -- The other range would go on over the gap.
  have hover : r'.Covers stop := ⟨Nat.le_of_lt hlt, fun stop' hs' =>
    Nat.lt_of_not_le fun hle => hno ⟨stop', hs', hle⟩⟩
  exact h.not_covered_stop hs ((hcov stop).mpr (covered_cons.mpr (.inl hover)))

theorem Ordered.not_covered_nil (h : Ordered (r :: rs)) :
    ¬ ∀ i, Covered (r :: rs) i ↔ Covered [] i := by
  intro hcov
  have hr := (h.proper r List.mem_cons_self).covers_start
  obtain ⟨q, hq, -⟩ := (hcov r.start).mp (covered_cons.mpr (.inl hr))
  cases hq

theorem Ordered.stop_ne_none (h : Ordered rs) (hr : r ∈ rs.dropLast) : r.stop ≠ none := by
  have hne : rs ≠ [] := by
    rintro rfl
    cases hr
  have hbefore := h.before
  rw [← List.dropLast_concat_getLast hne] at hbefore
  obtain ⟨stop, hs, -⟩ :=
    (List.pairwise_append.mp hbefore).2.2 r hr (rs.getLast hne) List.mem_cons_self
  rw [hs]
  exact Option.some_ne_none stop

/-- **Ranges in order are determined by the fields that they cover.** -/
theorem Ordered.unique (h : Ordered rs) (h' : Ordered rs')
    (hcov : ∀ i, Covered rs i ↔ Covered rs' i) : rs = rs' := by
  induction rs generalizing rs' with
  | nil =>
    cases rs' with
    | nil => rfl
    | cons r' rs' => exact absurd (fun i => (hcov i).symm) h'.not_covered_nil
  | cons r rs ih =>
    cases rs' with
    | nil => exact absurd hcov h.not_covered_nil
    | cons r' rs' =>
      have hr := (h.proper r List.mem_cons_self).covers_start
      have hr' := (h'.proper r' List.mem_cons_self).covers_start
      have hstart : r.start = r'.start := Nat.le_antisymm
        (h.start_le ((hcov _).mpr (covered_cons.mpr (.inl hr'))))
        (h'.start_le ((hcov _).mp (covered_cons.mpr (.inl hr))))
      have hstop : r.stop = r'.stop := by
        cases hs : r.stop with
        | some stop =>
          obtain ⟨stop', hs', hle⟩ := h.stop_le hstart hcov hs
          obtain ⟨_, hs'', hle'⟩ := h'.stop_le hstart.symm (fun i => (hcov i).symm) hs'
          obtain rfl := Option.some.inj (hs.symm.trans hs'')
          rw [hs', Nat.le_antisymm hle hle']
        | none =>
          cases hs' : r'.stop with
          | none => rfl
          | some stop' =>
            obtain ⟨_, he, -⟩ := h'.stop_le hstart.symm (fun i => (hcov i).symm) hs'
            cases hs.symm.trans he
      obtain ⟨start, stop⟩ := r
      obtain ⟨start', stop'⟩ := r'
      obtain rfl : start = start' := hstart
      obtain rfl : stop = stop' := hstop
      rw [ih h.tail h'.tail fun i => by rw [h.covered_tail_iff, h'.covered_tail_iff, hcov]]

end Ordered

/-! ## Field lists -/

/-- The part of a field list names the field at `i`, counted from 0. -/
def Names (part : List Char) (i : Nat) : Prop := ∃ r, Written part r ∧ r.Covers i

/-- The parts of a field list that has no fault: each of them can be read, and no two name the same
field. -/
structure Sound (parts : List (List Char)) : Prop where
  legible : ∀ part ∈ parts, ∃ r, Written part r
  once : parts.Pairwise fun p q => ∀ i, Names p i → ¬ Names q i

section Parts

variable {part : List Char} {parts : List (List Char)} {r : FieldRange} {rs : List FieldRange}

theorem names_iff (h : Written part r) (i : Nat) : Names part i ↔ r.Covers i :=
  ⟨fun ⟨_, hr, hi⟩ => hr.unique h ▸ hi, fun hi => ⟨r, h, hi⟩⟩

theorem named_iff (h : List.Forall₂ Written parts rs) (i : Nat) :
    (∃ part ∈ parts, Names part i) ↔ Covered rs i := by
  induction h with
  | nil => simp [Covered]
  | cons hr _ ih => rw [covered_cons, List.exists_mem_cons_iff, names_iff hr, ih]

theorem once_iff (h : List.Forall₂ Written parts rs) :
    (parts.Pairwise fun p q => ∀ i, Names p i → ¬ Names q i) ↔ rs.Pairwise Apart := by
  induction h with
  | nil => simp
  | @cons part r parts rs hr hrs ih =>
    rw [List.pairwise_cons, List.pairwise_cons, ih]
    refine and_congr_left fun _ => ?_
    have hcov := named_iff hrs
    constructor
    · intro h q hq i hi hqi
      obtain ⟨p, hp, hpi⟩ := (hcov i).mpr ⟨q, hq, hqi⟩
      exact h p hp i ((names_iff hr i).mpr hi) hpi
    · intro h p hp i hi hpi
      obtain ⟨q, hq, hqi⟩ := (hcov i).mp ⟨p, hp, hpi⟩
      exact h q hq i ((names_iff hr i).mp hi) hqi

theorem legible_of_forall₂ (h : List.Forall₂ Written parts rs) :
    ∀ part ∈ parts, ∃ r, Written part r := fun _ hp =>
  (exists_of_forall₂ h hp).imp fun _ hr => hr.2

theorem sound_iff (h : List.Forall₂ Written parts rs) : Sound parts ↔ rs.Pairwise Apart := by
  rw [← once_iff h]
  exact ⟨Sound.once, fun honce => ⟨legible_of_forall₂ h, honce⟩⟩

end Parts

theorem mapM_cases {ε α β : Type} (f : α → Except ε β) (as : List α) :
    (∃ bs, as.mapM f = .ok bs ∧ List.Forall₂ (fun a b => f a = .ok b) as bs) ∨
      ∃ a ∈ as, ∃ e, f a = .error e ∧ as.mapM f = .error e := by
  induction as with
  | nil => exact .inl ⟨[], rfl, .nil⟩
  | cons a as ih =>
    rw [List.mapM_cons]
    cases ha : f a with
    | error e => exact .inr ⟨a, List.mem_cons_self, e, ha, rfl⟩
    | ok b =>
      rcases ih with ⟨bs, hbs, hall⟩ | ⟨c, hc, e, he, hbs⟩
      · exact .inl ⟨b :: bs, by rw [hbs]; rfl, .cons ha hall⟩
      · exact .inr ⟨c, List.mem_cons_of_mem a hc, e, he, by rw [hbs]; rfl⟩

theorem perm_sorted (rs : List FieldRange) :
    (rs.mergeSort fun a b => a.start ≤ b.start).Perm rs ∧
      (rs.mergeSort fun a b => a.start ≤ b.start).Pairwise fun a b => a.start ≤ b.start := by
  refine ⟨List.mergeSort_perm rs _, ?_⟩
  have hle : (rs.mergeSort fun a b => a.start ≤ b.start).Pairwise
      fun a b => decide (a.start ≤ b.start) = true :=
    List.pairwise_mergeSort (by intro a b c; simpa using Nat.le_trans)
      (by intro a b; simpa using Nat.le_total _ _) rs
  simpa using hle

/-- **What a field list comes to**: its ranges joined, or the refusal of overlapping parts or of a
part that cannot be read. -/
theorem parse_cases (list : List Char) :
    (∃ rs ranges, List.Forall₂ Written (list.splitOn ',') rs ∧ parse list = .ok ⟨ranges⟩ ∧
        rs.Pairwise Apart ∧ ∀ i, Covered ranges i ↔ Covered rs i) ∨
      (∃ rs, List.Forall₂ Written (list.splitOn ',') rs ∧
        parse list = .error (.overlappingFields list) ∧ ¬ rs.Pairwise Apart) ∨
      ∃ part ∈ list.splitOn ',', ∃ fault, (∀ r, ¬ Written part r) ∧
        parse list = .error (.field part fault) := by
  rw [parse, splitAt_eq_splitOn]
  generalize list.splitOn ',' = parts
  rcases mapM_cases (fun part => (FieldRange.parsePart part).mapError (Misuse.field part))
      parts with
    ⟨rs, hrs, hall⟩ | ⟨part, hpart, misuse, he, hrs⟩
  · have hwritten : List.Forall₂ Written parts rs := by
      refine hall.imp fun part r hr => ?_
      cases hp : FieldRange.parsePart part with
      | error e =>
        rw [hp] at hr
        cases hr
      | ok q =>
        rw [hp] at hr
        cases hr
        exact FieldRange.written_of_parsePart hp
    have hproper : ∀ r ∈ rs, r.Proper := by
      intro r hr
      obtain ⟨part, -, hpart⟩ := exists_of_forall₂ hwritten.flip hr
      exact hpart.proper
    rw [hrs]
    simp only [bind, Except.bind]
    obtain ⟨hperm, hsorted⟩ := perm_sorted rs
    have hapart := hperm.pairwise_iff (R := Apart) fun h => h.symm
    have hcov (i : Nat) : Covered _ i ↔ Covered rs i :=
      exists_congr fun r => and_congr_left fun _ => hperm.mem_iff
    generalize rs.mergeSort (fun a b => decide (a.start ≤ b.start)) = sorted at *
    cases sorted with
    | nil =>
      refine .inl ⟨rs, [], hwritten, rfl, hapart.mp List.Pairwise.nil, hcov⟩
    | cons first rest =>
      have hsorted' : ∀ r ∈ first :: rest, r.Proper := fun r hr => hproper r (hperm.mem_iff.mp hr)
      obtain ⟨hfirst, hrest⟩ := List.forall_mem_cons.mp hsorted'
      obtain ⟨hiff, hjoined⟩ := join_spec hfirst hrest hsorted
      cases hj : first.join rest with
      | some ranges =>
        refine .inl ⟨rs, ranges, hwritten, by simp only [hj]; rfl,
          hapart.mp (hiff.mp (by rw [hj]; rfl)), fun i => ?_⟩
        rw [hjoined ranges hj, hcov]
      | none =>
        refine .inr (.inl ⟨rs, hwritten, by simp only [hj]; rfl, fun h => ?_⟩)
        have hsome := hiff.mpr (hapart.mpr h)
        rw [hj] at hsome
        cases hsome
  · refine .inr (.inr ?_)
    rw [hrs]
    cases hp : FieldRange.parsePart part with
    | ok r =>
      rw [hp] at he
      cases he
    | error fault =>
      rw [hp] at he
      cases he
      refine ⟨part, hpart, fault, fun r hr => ?_, rfl⟩
      cases hp.symm.trans (FieldRange.parsePart_of_written hr)

section Result

variable {list list' part : List Char} {selection : FieldSelection}

theorem parse_ok_iff : (∃ selection, parse list = .ok selection) ↔ Sound (list.splitOn ',') := by
  rcases parse_cases list with ⟨rs, ranges, hrs, hp, hapart, -⟩ | ⟨rs, hrs, hp, hnot⟩ |
    ⟨part, hpart, fault, hno, hp⟩
  · exact iff_of_true ⟨_, hp⟩ ((sound_iff hrs).mpr hapart)
  · rw [hp]
    exact iff_of_false (fun ⟨_, h⟩ => nomatch h) fun h => hnot ((sound_iff hrs).mp h)
  · rw [hp]
    refine iff_of_false (fun ⟨_, h⟩ => nomatch h) fun h => ?_
    obtain ⟨r, hr⟩ := h.legible part hpart
    exact hno r hr

theorem covered_of_parse (h : parse list = .ok selection) (i : Nat) :
    Covered selection.ranges i ↔ ∃ part ∈ list.splitOn ',', Names part i := by
  rcases parse_cases list with ⟨rs, ranges, hrs, hp, -, hcov⟩ | ⟨rs, hrs, hp, -⟩ |
    ⟨part, hpart, fault, -, hp⟩ <;> cases h.symm.trans hp
  rw [hcov, named_iff hrs]

/-- Two field lists come to the same if both have faults, or none has and they name the same
fields. -/
theorem toOption_congr (hsound : Sound (list.splitOn ',') ↔ Sound (list'.splitOn ','))
    (hnames : ∀ i, (∃ part ∈ list.splitOn ',', Names part i) ↔
      ∃ part ∈ list'.splitOn ',', Names part i) :
    (parse list).toOption = (parse list').toOption := by
  rw [← parse_ok_iff, ← parse_ok_iff] at hsound
  cases h : parse list with
  | ok selection =>
    obtain ⟨selection', h'⟩ := hsound.mp ⟨selection, h⟩
    have hranges := (ordered_of_parse h).unique (ordered_of_parse h') fun i => by
      rw [covered_of_parse h, covered_of_parse h', hnames]
    obtain ⟨ranges⟩ := selection
    obtain ⟨ranges'⟩ := selection'
    obtain rfl : ranges = ranges' := hranges
    rw [h']
  | error misuse =>
    cases h' : parse list' with
    | ok selection' =>
      obtain ⟨selection, hs⟩ := hsound.mpr ⟨selection', h'⟩
      cases h.symm.trans hs
    | error misuse' => rfl

end Result

theorem sound_perm {parts parts' : List (List Char)} (h : parts.Perm parts') :
    Sound parts ↔ Sound parts' := by
  have hperm {parts parts' : List (List Char)} (h : parts.Perm parts') (hs : Sound parts) :
      Sound parts' :=
    ⟨fun part hp => hs.legible part (h.mem_iff.mpr hp),
      (h.pairwise_iff fun hpq i hq hp => hpq i hp hq).mp hs.once⟩
  exact ⟨hperm h, hperm h.symm⟩

theorem named_perm {parts parts' : List (List Char)} (h : parts.Perm parts') (i : Nat) :
    (∃ part ∈ parts, Names part i) ↔ ∃ part ∈ parts', Names part i :=
  exists_congr fun _ => and_congr_left fun _ => h.mem_iff

/-- The parts name together what one part names, and no field twice. -/
structure Divides (pieces : List (List Char)) (whole : List Char) : Prop where
  sound : Sound pieces
  legible : ∃ r, Written whole r
  names : ∀ i, Names whole i ↔ ∃ piece ∈ pieces, Names piece i

theorem Divides.named_iff {pieces : List (List Char)} {whole : List Char}
    (h : Divides pieces whole) (rest : List (List Char)) (i : Nat) :
    (∃ part ∈ pieces ++ rest, Names part i) ↔ ∃ part ∈ whole :: rest, Names part i := by
  rw [List.exists_mem_cons_iff, h.names]
  simp only [List.mem_append, or_and_right, exists_or]

theorem Divides.sound_iff {pieces : List (List Char)} {whole : List Char}
    (h : Divides pieces whole) (rest : List (List Char)) :
    Sound (pieces ++ rest) ↔ Sound (whole :: rest) := by
  have honce : (∀ p ∈ pieces, ∀ q ∈ rest, ∀ i, Names p i → ¬ Names q i) ↔
      ∀ q ∈ rest, ∀ i, Names whole i → ¬ Names q i := by
    simp only [h.names]
    constructor
    · rintro hp q hq i ⟨p, hpm, hi⟩
      exact hp p hpm q hq i hi
    · intro hw p hp q hq i hi
      exact hw q hq i ⟨p, hp, hi⟩
  constructor
  · rintro ⟨hlegible, hpairs⟩
    obtain ⟨-, hrest, hcross⟩ := List.pairwise_append.mp hpairs
    refine ⟨List.forall_mem_cons.mpr ⟨h.legible, fun part hp => ?_⟩,
      List.pairwise_cons.mpr ⟨honce.mp hcross, hrest⟩⟩
    exact hlegible part (List.mem_append_right pieces hp)
  · rintro ⟨hlegible, hpairs⟩
    obtain ⟨hcross, hrest⟩ := List.pairwise_cons.mp hpairs
    refine ⟨fun part hp => ?_, List.pairwise_append.mpr ⟨h.sound.once, hrest, honce.mpr hcross⟩⟩
    rcases List.mem_append.mp hp with hp | hp
    · exact h.sound.legible part hp
    · exact hlegible part (List.mem_cons_of_mem whole hp)

/-- **A field list is put into the one normal form of the fields that it names.** It is read exactly
if each part is well-formed and no field is named twice; the ranges that come out are in order, with
a gap between neighbours, and are the only such ranges that cover what the parts name. So neither
the order of the parts matters nor whether a range is written whole or in pieces. What is refused
has a part that cannot be read, or parts that overlap. -/
theorem parse_normal_form (list : List Char) :
    ((∃ selection, parse list = .ok selection) ↔ Sound (list.splitOn ',')) ∧
    (∀ selection, parse list = .ok selection →
      (∀ i, Covered selection.ranges i ↔ ∃ part ∈ list.splitOn ',', Names part i) ∧
      Ordered selection.ranges ∧ (∀ r ∈ selection.ranges.dropLast, r.stop ≠ none) ∧
      ∀ ranges, Ordered ranges →
        (∀ i, Covered ranges i ↔ ∃ part ∈ list.splitOn ',', Names part i) →
          ranges = selection.ranges) ∧
    (∀ list', (list'.splitOn ',').Perm (list.splitOn ',') →
      (parse list').toOption = (parse list).toOption) ∧
    (∀ list' before whole pieces after, Divides pieces whole →
      list.splitOn ',' = before ++ whole :: after →
      (list'.splitOn ',') = before ++ pieces ++ after →
        (parse list').toOption = (parse list).toOption) ∧
    ∀ cause, parse list = .error cause →
      (∃ part ∈ list.splitOn ',', (∀ r, ¬ Written part r) ∧ ∃ fault, cause = .field part fault) ∨
        (∀ part ∈ list.splitOn ',', ∃ r, Written part r) ∧ cause = .overlappingFields list := by
  refine ⟨parse_ok_iff, fun selection h => ?_, fun list' hperm => ?_,
    fun list' before whole pieces after hdiv hl hl' => ?_, fun cause h => ?_⟩
  · have hord := ordered_of_parse h
    refine ⟨covered_of_parse h, hord, fun r hr => hord.stop_ne_none hr, fun ranges hr hcov => ?_⟩
    exact hr.unique hord fun i => by rw [hcov, covered_of_parse h]
  · exact toOption_congr (sound_perm hperm) (named_perm hperm)
  · -- The part that is divided comes to the front.
    have hperm : (list.splitOn ',').Perm (whole :: (before ++ after)) := hl ▸ List.perm_middle
    have hperm' : (list'.splitOn ',').Perm (pieces ++ (before ++ after)) := by
      rw [hl', ← List.append_assoc]
      exact List.perm_append_comm.append_right after
    refine toOption_congr ?_ fun i => ?_
    · rw [sound_perm hperm', sound_perm hperm, hdiv.sound_iff]
    · rw [named_perm hperm', named_perm hperm, hdiv.named_iff]
  · rcases parse_cases list with ⟨rs, ranges, -, hp, -⟩ | ⟨rs, hrs, hp, -⟩ |
      ⟨part, hpart, fault, hno, hp⟩ <;> cases h.symm.trans hp
    · exact .inr ⟨legible_of_forall₂ hrs, rfl⟩
    · exact .inl ⟨part, hpart, hno, fault, rfl⟩

/-- Parts that touch are joined, in whatever order they stand. -/
theorem parse_normal_form_joined :
    parse "5-,1,3-4".toList = .ok ⟨[⟨0, some 1⟩, ⟨2, none⟩]⟩ ∧
      Divides ["3-4".toList, "5-".toList] "3-".toList ∧
      (parse "1,3-4,5-".toList).toOption = (parse "1,3-".toList).toOption := by
  have hfive : Written "5-".toList ⟨4, none⟩ :=
    .onward (a := ['5']) (n := 5) rfl (by decide)
  have hone : Written "1".toList ⟨0, some 1⟩ := .field (n := 1) rfl (by decide)
  have hfour : Written "3-4".toList ⟨2, some 4⟩ :=
    .between (a := ['3']) (b := ['4']) (n := 3) rfl rfl (by decide) (by decide)
  have hthree : Written "3-".toList ⟨2, none⟩ :=
    .onward (a := ['3']) (n := 3) rfl (by decide)
  have hall : List.Forall₂ Written ("5-,1,3-4".toList.splitOn ',')
      [⟨4, none⟩, ⟨0, some 1⟩, ⟨2, some 4⟩] := .cons hfive (.cons hone (.cons hfour .nil))
  have hpieces : List.Forall₂ Written ["3-4".toList, "5-".toList] [⟨2, some 4⟩, ⟨4, none⟩] :=
    .cons hfour (.cons hfive .nil)
  have hsound : Sound ("5-,1,3-4".toList.splitOn ',') := by
    rw [sound_iff hall]
    simp only [List.pairwise_cons, List.forall_mem_cons, Apart, Covers]
    grind
  have hdiv : Divides ["3-4".toList, "5-".toList] "3-".toList := by
    refine ⟨?_, ⟨_, hthree⟩, fun i => ?_⟩
    · rw [sound_iff hpieces]
      simp only [List.pairwise_cons, List.forall_mem_cons, Apart, Covers]
      grind
    · rw [names_iff hthree, named_iff hpieces]
      simp only [Covered, List.exists_mem_cons_iff, Covers]
      grind
  have hord : Ordered [⟨0, some 1⟩, ⟨2, none⟩] := by
    refine ⟨?_, ?_⟩ <;> simp [Proper, Before]
  obtain ⟨hok, hform, -⟩ := parse_normal_form "5-,1,3-4".toList
  obtain ⟨⟨ranges⟩, h⟩ := hok.mpr hsound
  obtain ⟨-, -, -, hunique⟩ := hform ⟨ranges⟩ h
  have hranges : _ = ranges := hunique _ hord fun i => by
    rw [named_iff hall]
    simp only [Covered, List.exists_mem_cons_iff, Covers]
    grind
  exact ⟨hranges ▸ h, hdiv,
    (parse_normal_form "1,3-".toList).2.2.2.1 "1,3-4,5-".toList [['1']] _ _ [] hdiv rfl rfl⟩

end FieldSelection

end Coprocess
