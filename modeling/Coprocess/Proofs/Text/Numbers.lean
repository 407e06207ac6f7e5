import Coprocess.Bytes
import Coprocess.Text.Decimal
import Mathlib.Algebra.Ring.Nat

/-!
# Numbers as bytes and as digits

* `littleEndian_length`, `ofLittleEndian_littleEndian`: a number of some bytes, read again;
* `Decimal.parseDigits_cons_eq_ok_iff`, `Decimal.digits_of_word?`: how a number of 64 bits is
  written;
* `Decimal.word?_lt_bound`, `Decimal.word?_lt`: its bounds, by its bits and by its digits;
* `Decimal.minus_not_mem`: it has no minus sign.
-/

namespace Coprocess

theorem littleEndian_length (width n : Nat) : (littleEndian width n).length = width := by
  induction width generalizing n with
  | zero => rfl
  | succ width ih => rw [littleEndian, List.length_cons, ih]

theorem ofLittleEndian_littleEndian {width n : Nat} (h : n < 256 ^ width) :
    ofLittleEndian (littleEndian width n) = n := by
  induction width generalizing n with
  | zero =>
    have hn : n = 0 := by simpa using h
    rw [hn]
    rfl
  | succ width ih =>
    have hdiv : n / 256 < 256 ^ width := by
      apply (Nat.div_lt_iff_lt_mul (by decide)).mpr
      rwa [Nat.pow_succ] at h
    have hlow : (UInt8.ofNat n).toNat = n % 256 := UInt8.toNat_ofNat'
    rw [littleEndian, ofLittleEndian, ih hdiv, hlow]
    omega

namespace Decimal

theorem word?_eq_some_iff {text : List Char} {n : Nat} :
    word? text = some n ↔ parse text = .ok n := by
  unfold word?
  cases parse text <;> simp [Except.toOption]

theorem digits_of_word? {text : List Char} {n : Nat} (h : word? text = some n) :
    ∃ digits, (text = digits ∨ text = '+' :: digits) ∧ parseDigits 0 digits = .ok n := by
  rw [word?_eq_some_iff] at h
  unfold parse at h
  split at h
  · cases h
  · cases h
  · exact ⟨_, .inr rfl, h⟩
  · exact ⟨_, .inl rfl, h⟩

theorem parseDigits_cons_eq_ok_iff {m n : Nat} {c : Char} {cs : List Char} :
    parseDigits m (c :: cs) = .ok n ↔
      c.isDigit = true ∧ m * 10 + (c.toNat - '0'.toNat) < wordBound ∧
        parseDigits (m * 10 + (c.toNat - '0'.toNat)) cs = .ok n := by
  rw [parseDigits]
  cases c.isDigit with
  | false => simp
  | true =>
    rw [← Nat.not_le]
    generalize m * 10 + (c.toNat - '0'.toNat) = k
    by_cases hbound : wordBound ≤ k <;> simp [hbound]

theorem parseDigits_lt_bound {m n : Nat} {cs : List Char} (hm : m < wordBound)
    (h : parseDigits m cs = .ok n) : n < wordBound := by
  induction cs generalizing m with
  | nil =>
    cases h
    exact hm
  | cons c cs ih =>
    obtain ⟨-, hlt, hrest⟩ := parseDigits_cons_eq_ok_iff.mp h
    exact ih hlt hrest

theorem word?_lt_bound {text : List Char} {n : Nat} (h : word? text = some n) :
    n < wordBound := by
  obtain ⟨digits, -, hn⟩ := digits_of_word? h
  exact parseDigits_lt_bound (by decide) hn

theorem parseDigits_lt {m n : Nat} {cs : List Char} (h : parseDigits m cs = .ok n) :
    n < (m + 1) * 10 ^ cs.countP Char.isDigit := by
  induction cs generalizing m with
  | nil =>
    cases h
    simp
  | cons c cs ih =>
    obtain ⟨hc, -, hrest⟩ := parseDigits_cons_eq_ok_iff.mp h
    have hdigit : c.toNat - '0'.toNat ≤ 9 := by
      have := (Char.isDigit_iff_toNat.mp hc).2
      have hnine : '9'.toNat = '0'.toNat + 9 := by decide
      omega
    rw [List.countP_cons_of_pos hc, Nat.pow_succ]
    calc n < (m * 10 + (c.toNat - '0'.toNat) + 1) * 10 ^ cs.countP Char.isDigit := ih hrest
      _ ≤ ((m + 1) * 10) * 10 ^ cs.countP Char.isDigit := Nat.mul_le_mul_right _ (by omega)
      _ = (m + 1) * (10 ^ cs.countP Char.isDigit * 10) := by
        rw [Nat.mul_assoc, Nat.mul_comm 10]

theorem word?_lt {text : List Char} {n : Nat} (h : word? text = some n) :
    n < 10 ^ text.countP Char.isDigit := by
  obtain ⟨digits, htext, hn⟩ := digits_of_word? h
  have hlt : n < 10 ^ digits.countP Char.isDigit := by simpa using parseDigits_lt hn
  rcases htext with rfl | rfl
  · exact hlt
  · rwa [List.countP_cons_of_neg (by decide)]

theorem isDigit_of_parseDigits {m n : Nat} {cs : List Char} (h : parseDigits m cs = .ok n) :
    ∀ c ∈ cs, c.isDigit = true := by
  induction cs generalizing m with
  | nil => exact fun _ hc => absurd hc List.not_mem_nil
  | cons c cs ih =>
    obtain ⟨hc, -, hrest⟩ := parseDigits_cons_eq_ok_iff.mp h
    exact List.forall_mem_cons.mpr ⟨hc, ih hrest⟩

theorem minus_not_mem {text : List Char} {n : Nat} (h : word? text = some n) : '-' ∉ text := by
  obtain ⟨digits, htext, hn⟩ := digits_of_word? h
  have hdigits : '-' ∉ digits := fun hm =>
    absurd (isDigit_of_parseDigits hn '-' hm) (by decide)
  rcases htext with rfl | rfl
  · exact hdigits
  · exact List.not_mem_cons_of_ne_of_not_mem (by decide) hdigits

end Decimal

end Coprocess
