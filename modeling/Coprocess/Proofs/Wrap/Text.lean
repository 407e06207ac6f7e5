import Coprocess.Proofs.Text.Characters
import Coprocess.Proofs.Text.Lines
import Coprocess.Wrap

/-!
# Wrapped text

* `Utf8.lf_mem_encode`, **`Utf8.newline_not_mem_decode`**: a line feed in bytes is one in the text
  that they stand for;
* **`flatMap_wrap`**: a line is cut into pieces and delimiters without loss.
-/

namespace Coprocess

/-! ## Line feeds in UTF-8 -/

namespace Utf8

theorem lf_mem_encodeChar {c : Char} (h : lf ∈ encodeChar c) : c = '\n' := by
  have hlf (n : Nat) (e : lf = UInt8.ofNat n) : n % 256 = 10 := by
    have := congrArg UInt8.toNat e
    rw [UInt8.toNat_ofNat'] at this
    exact this.symm
  have hn : c.toNat = 10 := by
    have hv : c.toNat < 0x110000 := by
      have := c.valid
      unfold UInt32.isValidChar Nat.isValidChar at this
      rw [Char.toNat]
      omega
    unfold encodeChar at h
    simp only at h
    split_ifs at h with h1 h2 h3
    · have := hlf _ (List.mem_singleton.mp h)
      omega
    all_goals
      simp only [List.mem_cons, List.not_mem_nil, or_false] at h
      exfalso
    · rcases h with h | h <;> have := hlf _ h <;> omega
    · rcases h with h | h | h <;> have := hlf _ h <;> omega
    · rcases h with h | h | h | h <;> have := hlf _ h <;> omega
  rw [← Char.ofNat_toNat c, hn]

theorem lf_mem_encode {text : List Char} (h : lf ∈ encode text) : '\n' ∈ text := by
  obtain ⟨c, hc, hm⟩ := List.mem_flatMap.mp h
  rwa [← lf_mem_encodeChar hm]

/-- **A text has a line feed only if its bytes have one.** -/
theorem newline_not_mem_decode {s : Bytes} {text : List Char} (h : decode s = .ok text)
    (hs : lf ∉ s) : '\n' ∉ text := by
  intro hm
  rw [decode_eq_ok_iff.mp h] at hs
  exact hs (List.mem_flatMap.mpr ⟨'\n', hm, by decide⟩)

end Utf8

/-! ## The pieces of a line -/

namespace Wrap

theorem splitBytes_append (n : Nat) (cs : List Char) :
    (splitBytes n cs).1 ++ (splitBytes n cs).2 = cs := by
  fun_induction splitBytes n cs <;> simp_all

theorem absorb_append (o : WrapOptions) (used : Nat) (cs : List Char) :
    (absorb o used cs).1 ++ (absorb o used cs).2 = cs := by
  fun_induction absorb o used cs <;> simp_all

theorem cutPiece_append {o : WrapOptions} {m m' : Memory} {base next : Nat}
    {ahead rest : List Char} {p : Piece} (h : cutPiece o m base ahead = some (p, m', next, rest)) :
    p.text ++ p.delimiter ++ rest = ahead := by
  unfold cutPiece at h
  split at h
  · cases h
  · rename_i m₁ pos before _
    simp only [Option.some.injEq, Prod.mk.injEq] at h
    obtain ⟨hp, -, -, rfl⟩ := h
    have h1 := splitBytes_append (cutAt o m₁ base pos before - base) ahead
    have h2 := absorb_append o (cutAt o m₁ base pos before - base)
      (splitBytes (cutAt o m₁ base pos before - base) ahead).2
    rw [← hp]
    split_ifs
    · simp [h1, h2]
    · simp [h1, h2]

theorem flatMap_piecesOnto (o : WrapOptions) (cut : List Piece) (m : Memory) (base : Nat)
    (ahead : List Char) :
    (piecesOnto o cut m base ahead).flatMap (fun p => p.text ++ p.delimiter) =
      cut.reverse.flatMap (fun p => p.text ++ p.delimiter) ++ ahead := by
  induction cut, m, base, ahead using piecesOnto.induct o with
  | case1 cut m base ahead h =>
    rw [piecesOnto]
    split
    · split_ifs with he
      · rw [List.isEmpty_iff.mp he, List.append_nil]
      · simp
    · simp_all
  | case2 cut m base ahead piece m' next rest h ih =>
    rw [piecesOnto]
    split
    · simp_all
    · rename_i e
      rw [h] at e
      obtain ⟨rfl, rfl, rfl, rfl⟩ := by simpa using e
      rw [ih, ← cutPiece_append h]
      simp

end Wrap

/-- **The pieces of a line and the delimiters between them make up the line.** -/
theorem flatMap_wrap (o : WrapOptions) (line : List Char) :
    (wrap o line).flatMap (fun p => p.text ++ p.delimiter) = line := by
  unfold wrap
  split_ifs with he
  · rw [List.isEmpty_iff.mp he]
    rfl
  · exact Wrap.flatMap_piecesOnto o [] _ 0 line

theorem wrap_ne_nil (o : WrapOptions) (line : List Char) : wrap o line ≠ [] := by
  intro hnil
  have hline := flatMap_wrap o line
  rw [hnil, List.flatMap_nil] at hline
  subst hline
  cases hnil

theorem mem_of_mem_wrap {o : WrapOptions} {line : List Char} {p : Piece} (hp : p ∈ wrap o line)
    {c : Char} (hc : c ∈ p.text ++ p.delimiter) : c ∈ line := by
  rw [← flatMap_wrap o line]
  exact List.mem_flatMap.mpr ⟨p, hp, hc⟩

end Coprocess
