import Coprocess.Proofs.Field.Selecting
import Coprocess.Proofs.Text.Numbers
import Mathlib.Data.List.Infix

/-!
# Keys of lines

A key tells as much of a line as was selected of it.

* `FieldSelection.infix_of_mem_slices`: what is selected of a line lies in it;
* `CacheKey.framed`: a part after its length;
* `CacheKey.framed_append_inj`: bytes begin with one such part at most, whatever the part holds;
* **`CacheKey.same_key_iff`**: two lines have one key exactly if the same is selected of them.
-/

namespace Coprocess

namespace FieldSelection

theorem dropField_suffix {sep : UInt8} {s t : Bytes} (h : dropField sep s = some t) : t <:+ s := by
  rcases dropField_cases sep s with ⟨hd, -⟩ | ⟨f, rest, -, rfl, hd, -⟩ <;> cases h.symm.trans hd
  exact ⟨f ++ [sep], (List.append_cons f sep t).symm⟩

theorem skipFields_suffix {sep : UInt8} {n : Nat} {s t : Bytes}
    (h : skipFields sep n s = some t) : t <:+ s := by
  induction n generalizing s with
  | zero =>
    cases h
    exact List.suffix_refl _
  | succ n ih =>
    obtain ⟨u, hu, ht⟩ := Option.bind_eq_some_iff.mp h
    exact (ih ht).trans (dropField_suffix hu)

theorem infix_of_mem_slices {sep : UInt8} {index : Nat} {s part : Bytes}
    {ranges : List FieldRange} (h : part ∈ slices sep index s ranges) : part <:+: s := by
  induction ranges generalizing index s with
  | nil => cases h
  | cons r rs ih =>
    rw [slices] at h
    split at h
    · cases h
    · rename_i t ht
      have hsuffix := skipFields_suffix ht
      split at h
      · rw [List.mem_singleton.mp h]
        exact hsuffix.isInfix
      · split at h
        · rw [List.mem_singleton.mp h]
          exact hsuffix.isInfix
        · rename_i u hu
          rcases List.mem_cons.mp h with rfl | h
          · exact (List.take_prefix _ t).isInfix.trans hsuffix.isInfix
          · exact (ih h).trans ((skipFields_suffix hu).trans hsuffix).isInfix

end FieldSelection

namespace CacheKey

/-- A part after its length. -/
def framed (part : Bytes) : Bytes := littleEndian 8 part.length ++ part

theorem framed_ne_nil (part : Bytes) : framed part ≠ [] := by
  refine List.append_ne_nil_of_left_ne_nil (List.ne_nil_of_length_pos ?_) part
  rw [littleEndian_length]
  decide

/-- **Bytes begin with one framed part at most**, whatever stands in the part and behind it. -/
theorem framed_append_inj {p q s t : Bytes} (hp : p.length < 2 ^ 64) (hq : q.length < 2 ^ 64)
    (h : framed p ++ s = framed q ++ t) : p = q ∧ s = t := by
  rw [framed, framed, List.append_assoc, List.append_assoc] at h
  obtain ⟨hsize, h⟩ := List.append_inj h (by rw [littleEndian_length, littleEndian_length])
  have hlen : p.length = q.length := by
    calc p.length
      _ = ofLittleEndian (littleEndian 8 p.length) := (ofLittleEndian_littleEndian hp).symm
      _ = ofLittleEndian (littleEndian 8 q.length) := by rw [hsize]
      _ = q.length := ofLittleEndian_littleEndian hq
  exact List.append_inj h hlen

theorem flatMap_framed_inj {ps qs : List Bytes} (hps : ∀ p ∈ ps, p.length < 2 ^ 64)
    (hqs : ∀ q ∈ qs, q.length < 2 ^ 64) (h : ps.flatMap framed = qs.flatMap framed) : ps = qs := by
  induction ps generalizing qs with
  | nil =>
    cases qs with
    | nil => rfl
    | cons q qs => exact absurd (List.append_eq_nil_iff.mp h.symm).1 (framed_ne_nil q)
  | cons p ps ih =>
    obtain ⟨hp, hps⟩ := List.forall_mem_cons.mp hps
    cases qs with
    | nil => exact absurd (List.append_eq_nil_iff.mp h).1 (framed_ne_nil p)
    | cons q qs =>
      obtain ⟨hq, hrest⟩ := List.forall_mem_cons.mp hqs
      rw [List.flatMap_cons, List.flatMap_cons] at h
      obtain ⟨hhead, htail⟩ := framed_append_inj hp hq h
      rw [hhead, ih hps hrest htail]

variable {key : CacheKey} {line line' : Bytes}

theorem of_eq {selection : FieldSelection} (h : key.selection = some selection) (line : Bytes) :
    key.of line = (selection.select line key.separator).flatMap framed := by
  rw [CacheKey.of, h]
  rfl

theorem length_lt_of_mem_select {selection : FieldSelection} {sep : UInt8} {part : Bytes}
    (hline : line.length < 2 ^ 64) (h : part ∈ selection.select line sep) :
    part.length < 2 ^ 64 :=
  (FieldSelection.infix_of_mem_slices h).length_le.trans_lt hline

/-- **Two lines have one key exactly if the same is selected of them**: as many parts, and the same
in each place; without a selection, exactly if they are the same line. What a part holds cannot be
taken for the length or the end of one: bytes that begin with a framed part begin with no other. -/
theorem same_key_iff (hline : line.length < 2 ^ 64) (hline' : line'.length < 2 ^ 64) :
    (∀ selection, key.selection = some selection →
      (key.of line = key.of line' ↔
        selection.select line key.separator = selection.select line' key.separator)) ∧
    (key.selection = none → (key.of line = key.of line' ↔ line = line')) ∧
    ∀ p q s t : Bytes, p.length < 2 ^ 64 → q.length < 2 ^ 64 →
      framed p ++ s = framed q ++ t → p = q ∧ s = t := by
  refine ⟨fun selection h => ?_, fun h => ?_, fun p q s t => framed_append_inj⟩
  · rw [of_eq h, of_eq h]
    refine ⟨fun he => ?_, fun he => by rw [he]⟩
    exact flatMap_framed_inj (fun p hp => length_lt_of_mem_select hline hp)
      (fun q hq => length_lt_of_mem_select hline' hq) he
  · rw [CacheKey.of, CacheKey.of, h]

/-- A field that holds the bytes of the length and the content of another. -/
theorem same_key_iff_imitation :
    let key : CacheKey := ⟨some ⟨[⟨0, some 1⟩, ⟨2, some 3⟩]⟩, 44⟩
    let two : Bytes := [44, 120, 44, 98]
    let one : Bytes := [1, 0, 0, 0, 0, 0, 0, 0, 98]
    two.length < 2 ^ 64 ∧ one.length < 2 ^ 64 ∧ key.of two = List.replicate 8 0 ++ one ∧
      key.of one = [9, 0, 0, 0, 0, 0, 0, 0] ++ one ∧ key.of two ≠ key.of one ∧
      key.of two = key.of [44, 121, 44, 98] := by
  intro key two one
  refine ⟨by decide, by decide, by decide +kernel, by decide +kernel, fun he => ?_, ?_⟩
  · have hsame := ((@same_key_iff key two one (by decide) (by decide)).1 _ rfl).mp he
    exact absurd hsame (by decide +kernel)
  · refine ((@same_key_iff key two _ (by decide) (by decide)).1 _ rfl).mpr ?_
    decide +kernel

end CacheKey

end Coprocess
