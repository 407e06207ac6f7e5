import Coprocess.Text.Utf8
import Mathlib.Data.List.TakeWhile
import Mathlib.Tactic.SplitIfs

/-!
# Characters and their bytes

The bytes of a character are a lead byte and its continuation bytes, and the lead byte tells how
many there are and where the first of them lies.

* `Utf8.Follows`, `Utf8.Sequence`: which bytes follow a lead byte;
* `Utf8.encodeChar_codePoint`, `Utf8.sequence_of_encodeChar`: the sequences are the bytes of the
  characters;
* `Utf8.cutPiece_eq_char_iff`: what is cut off as a character;
* **`Utf8.decode_eq_ok_iff`**: bytes stand for a text exactly when they are its encoding.
-/

namespace Coprocess.Utf8

/-! ## Sequences -/

/-- Continuation bytes, so many of them, the first from `lo` to `hi`. -/
def Follows : Nat → UInt8 → UInt8 → Bytes → Prop
  | 0, _, _, tail => tail = []
  | _ + 1, _, _, [] => False
  | n + 1, lo, hi, b :: tail => lo ≤ b ∧ b ≤ hi ∧ Follows n 0x80 0xBF tail

/-- A lead byte with as many continuation bytes as it asks for. -/
def Sequence (lead : UInt8) (tail : Bytes) : Prop :=
  ∃ n lo hi, followers lead = some (n, lo, hi) ∧ Follows n lo hi tail

theorem Follows.length {n : Nat} {lo hi : UInt8} {tail : Bytes} (h : Follows n lo hi tail) :
    tail.length = n := by
  induction n generalizing lo hi tail with
  | zero =>
    rw [show tail = [] from h]
    rfl
  | succ n ih =>
    cases tail with
    | nil => exact h.elim
    | cons b tail => rw [List.length_cons, ih h.2.2]

theorem takeFollowers_of_follows {n : Nat} {lo hi : UInt8} {tail : Bytes}
    (h : Follows n lo hi tail) (s : Bytes) : takeFollowers n lo hi (tail ++ s) = (tail, s) := by
  induction n generalizing lo hi tail with
  | zero =>
    rw [show tail = [] from h]
    rfl
  | succ n ih =>
    cases tail with
    | nil => exact h.elim
    | cons b tail =>
      obtain ⟨hlo, hhi, ht⟩ := h
      rw [List.cons_append, takeFollowers, if_pos ⟨hlo, hhi⟩, ih ht]

theorem follows_takeFollowers {n : Nat} {lo hi : UInt8} {s : Bytes}
    (h : (takeFollowers n lo hi s).1.length = n) :
    Follows n lo hi (takeFollowers n lo hi s).1 := by
  induction n generalizing lo hi s with
  | zero => rfl
  | succ n ih =>
    cases s with
    | nil => cases h
    | cons b s =>
      by_cases hb : lo ≤ b ∧ b ≤ hi
      · simp only [takeFollowers, if_pos hb, List.length_cons, Nat.add_right_cancel_iff] at h ⊢
        exact ⟨hb.1, hb.2, ih h⟩
      · simp [takeFollowers, hb] at h

/-- **What is cut off as a character** is a sequence. -/
theorem cutPiece_eq_char_iff {lead : UInt8} {s rest : Bytes} {c : Char} :
    cutPiece lead s = (.char c, rest) ↔
      ∃ tail, s = tail ++ rest ∧ Sequence lead tail ∧ c = Char.ofNat (codePoint lead tail) := by
  constructor
  · intro h
    unfold cutPiece at h
    cases hf : followers lead with
    | none => simp [hf] at h
    | some f =>
      obtain ⟨n, lo, hi⟩ := f
      have ha := takeFollowers_append n lo hi s
      simp only [hf] at h
      split_ifs at h with hn hr
      · simp only [Prod.mk.injEq, Piece.char.injEq] at h
        obtain ⟨rfl, rfl⟩ := h
        exact ⟨_, ha.symm, ⟨n, lo, hi, hf, follows_takeFollowers hn⟩, rfl⟩
      · simp at h
      · simp at h
  · rintro ⟨tail, rfl, ⟨n, lo, hi, hf, ht⟩, rfl⟩
    simp only [cutPiece, hf, takeFollowers_of_follows ht, ht.length, if_true]

/-! ## The bytes of a character -/

theorem valid_toNat (c : Char) : c.toNat < 0xD800 ∨ 0xDFFF < c.toNat ∧ c.toNat < 0x110000 := c.valid

theorem toNat_ofNat_of_valid {v : Nat} (h : v < 0xD800 ∨ 0xDFFF < v ∧ v < 0x110000) :
    (Char.ofNat v).toNat = v := by
  have hv : v.isValidChar := h
  rw [Char.ofNat, dif_pos hv]
  rfl

theorem followers_eq (lead : UInt8) :
    followers lead =
      if lead.toNat < 0x80 then some (0, 0x80, 0xBF)
      else if lead.toNat < 0xC2 then none
      else if lead.toNat < 0xE0 then some (1, 0x80, 0xBF)
      else if lead.toNat < 0xF0 then
        some (2, if lead.toNat = 0xE0 then 0xA0 else 0x80, if lead.toNat = 0xED then 0x9F else 0xBF)
      else if lead.toNat < 0xF5 then
        some (3, if lead.toNat = 0xF0 then 0x90 else 0x80, if lead.toNat = 0xF4 then 0x8F else 0xBF)
      else none := by
  unfold followers
  simp only [UInt8.lt_iff_toNat_lt, ← UInt8.toNat_inj, UInt8.reduceToNat]
  split_ifs <;> first | rfl | omega

/-- A continuation byte. -/
def Continues (b : UInt8) : Prop := 0x80 ≤ b.toNat ∧ b.toNat ≤ 0xBF

theorem continues_iff {b : UInt8} : Continues b ↔ 0x80 ≤ b ∧ b ≤ 0xBF := by
  simp only [Continues, UInt8.le_iff_toNat_le, UInt8.reduceToNat]

theorem follows_one {lo hi : UInt8} {tail : Bytes} (h : Follows 1 lo hi tail) :
    ∃ b, tail = [b] ∧ lo ≤ b ∧ b ≤ hi := by
  cases tail with
  | nil => exact h.elim
  | cons b tail =>
    obtain ⟨hlo, hhi, rfl⟩ := h
    exact ⟨b, rfl, hlo, hhi⟩

theorem follows_two {lo hi : UInt8} {tail : Bytes} (h : Follows 2 lo hi tail) :
    ∃ b c, tail = [b, c] ∧ lo ≤ b ∧ b ≤ hi ∧ Continues c := by
  cases tail with
  | nil => exact h.elim
  | cons b tail =>
    obtain ⟨hlo, hhi, ht⟩ := h
    obtain ⟨c, rfl, hc⟩ := follows_one ht
    exact ⟨b, c, rfl, hlo, hhi, continues_iff.mpr hc⟩

theorem follows_three {lo hi : UInt8} {tail : Bytes} (h : Follows 3 lo hi tail) :
    ∃ b c d, tail = [b, c, d] ∧ lo ≤ b ∧ b ≤ hi ∧ Continues c ∧ Continues d := by
  cases tail with
  | nil => exact h.elim
  | cons b tail =>
    obtain ⟨hlo, hhi, ht⟩ := h
    obtain ⟨c, d, rfl, hlo', hhi', hd⟩ := follows_two ht
    exact ⟨b, c, d, rfl, hlo, hhi, continues_iff.mpr ⟨hlo', hhi'⟩, hd⟩

theorem sequence_iff {lead : UInt8} {tail : Bytes} :
    Sequence lead tail ↔
      (tail = [] ∧ lead.toNat < 0x80) ∨
      (∃ b, tail = [b] ∧ 0xC2 ≤ lead.toNat ∧ lead.toNat < 0xE0 ∧ Continues b) ∨
      (∃ b c, tail = [b, c] ∧ 0xE0 ≤ lead.toNat ∧ lead.toNat < 0xF0 ∧
        (lead.toNat = 0xE0 → 0xA0 ≤ b.toNat) ∧ (lead.toNat = 0xED → b.toNat ≤ 0x9F) ∧
        Continues b ∧ Continues c) ∨
      (∃ b c d, tail = [b, c, d] ∧ 0xF0 ≤ lead.toNat ∧ lead.toNat < 0xF5 ∧
        (lead.toNat = 0xF0 → 0x90 ≤ b.toNat) ∧ (lead.toNat = 0xF4 → b.toNat ≤ 0x8F) ∧
        Continues b ∧ Continues c ∧ Continues d) := by
  unfold Sequence
  rw [followers_eq]
  constructor
  · rintro ⟨n, lo, hi, hf, ht⟩
    split at hf
    · cases hf
      exact .inl ⟨ht, ‹_›⟩
    split at hf
    · cases hf
    split at hf
    · cases hf
      obtain ⟨b, rfl, hb⟩ := follows_one ht
      exact .inr (.inl ⟨b, rfl, by omega, ‹_›, continues_iff.mpr hb⟩)
    split at hf
    · cases hf
      obtain ⟨b, c, rfl, hlo, hhi, hc⟩ := follows_two ht
      rw [UInt8.le_iff_toNat_le] at hlo hhi
      refine .inr (.inr (.inl ⟨b, c, rfl, by omega, ‹_›, ?_, ?_, ⟨?_, ?_⟩, hc⟩))
      all_goals
        split_ifs at hlo hhi <;> simp only [UInt8.reduceToNat] at hlo hhi <;> omega
    split at hf
    · cases hf
      obtain ⟨b, c, d, rfl, hlo, hhi, hc, hd⟩ := follows_three ht
      rw [UInt8.le_iff_toNat_le] at hlo hhi
      refine .inr (.inr (.inr ⟨b, c, d, rfl, by omega, ‹_›, ?_, ?_, ⟨?_, ?_⟩, hc, hd⟩))
      all_goals
        split_ifs at hlo hhi <;> simp only [UInt8.reduceToNat] at hlo hhi <;> omega
    · cases hf
  · rintro (⟨rfl, h⟩ | ⟨b, rfl, h1, h2, hb⟩ | ⟨b, c, rfl, h1, h2, hlo, hhi, hb, hc⟩ |
      ⟨b, c, d, rfl, h1, h2, hlo, hhi, hb, hc, hd⟩)
    · exact ⟨0, 0x80, 0xBF, by rw [if_pos h], rfl⟩
    · refine ⟨1, 0x80, 0xBF, ?_, (continues_iff.mp hb).1, (continues_iff.mp hb).2, rfl⟩
      rw [if_neg (by omega), if_neg (by omega), if_pos h2]
    · refine ⟨2, if lead.toNat = 0xE0 then 0xA0 else 0x80, if lead.toNat = 0xED then 0x9F else 0xBF,
        ?_, ?_, ?_, (continues_iff.mp hc).1, (continues_iff.mp hc).2, rfl⟩
      · rw [if_neg (by omega), if_neg (by omega), if_neg (by omega), if_pos h2]
      all_goals
        rw [UInt8.le_iff_toNat_le]
        unfold Continues at hb
        split_ifs <;> simp only [UInt8.reduceToNat] <;> omega
    · refine ⟨3, if lead.toNat = 0xF0 then 0x90 else 0x80, if lead.toNat = 0xF4 then 0x8F else 0xBF,
        ?_, ?_, ?_, (continues_iff.mp hc).1, (continues_iff.mp hc).2, (continues_iff.mp hd).1,
        (continues_iff.mp hd).2, rfl⟩
      · rw [if_neg (by omega), if_neg (by omega), if_neg (by omega), if_neg (by omega), if_pos h2]
      all_goals
        rw [UInt8.le_iff_toNat_le]
        unfold Continues at hb
        split_ifs <;> simp only [UInt8.reduceToNat] <;> omega

theorem ofNat_eq_of_toNat {n : Nat} {b : UInt8} (h : n = b.toNat) : UInt8.ofNat n = b := by
  rw [h, UInt8.ofNat_toNat]

/-- **A sequence is the encoding of its number.** -/
theorem encodeChar_codePoint {lead : UInt8} {tail : Bytes} (h : Sequence lead tail) :
    encodeChar (Char.ofNat (codePoint lead tail)) = lead :: tail := by
  have hvalid {v : Nat} (hv : v < 0xD800 ∨ 0xDFFF < v ∧ v < 0x110000)
      (he : codePoint lead tail = v) : (Char.ofNat (codePoint lead tail)).toNat = v := by
    rw [he, toNat_ofNat_of_valid hv]
  rcases sequence_iff.mp h with ⟨rfl, h1⟩ | ⟨b, rfl, h1, h2, hb⟩ |
    ⟨b, c, rfl, h1, h2, hlo, hhi, hb, hc⟩ | ⟨b, c, d, rfl, h1, h2, hlo, hhi, hb, hc, hd⟩
  · have hv := hvalid (v := lead.toNat) (by omega) rfl
    simp only [encodeChar, hv, if_pos h1, UInt8.ofNat_toNat]
  · unfold Continues at hb
    have hv := hvalid (v := (lead.toNat - 0xC0) * 64 + (b.toNat - 0x80)) (by omega) rfl
    rw [encodeChar]
    simp only [hv]
    rw [if_neg (by omega), if_pos (by omega), ofNat_eq_of_toNat (b := lead) (by omega),
      ofNat_eq_of_toNat (b := b) (by omega)]
  · unfold Continues at hb hc
    have hv := hvalid
      (v := ((lead.toNat - 0xE0) * 64 + (b.toNat - 0x80)) * 64 + (c.toNat - 0x80)) (by omega) rfl
    rw [encodeChar]
    simp only [hv]
    rw [if_neg (by omega), if_neg (by omega), if_pos (by omega),
      ofNat_eq_of_toNat (b := lead) (by omega), ofNat_eq_of_toNat (b := b) (by omega),
      ofNat_eq_of_toNat (b := c) (by omega)]
  · unfold Continues at hb hc hd
    have hv := hvalid
      (v := (((lead.toNat - 0xF0) * 64 + (b.toNat - 0x80)) * 64 + (c.toNat - 0x80)) * 64 +
        (d.toNat - 0x80)) (by omega) rfl
    rw [encodeChar]
    simp only [hv]
    rw [if_neg (by omega), if_neg (by omega), if_neg (by omega),
      ofNat_eq_of_toNat (b := lead) (by omega), ofNat_eq_of_toNat (b := b) (by omega),
      ofNat_eq_of_toNat (b := c) (by omega), ofNat_eq_of_toNat (b := d) (by omega)]

/-- **The encoding of a character is a sequence**, and its number is that of the character. -/
theorem sequence_of_encodeChar (c : Char) :
    ∃ lead tail, encodeChar c = lead :: tail ∧ Sequence lead tail ∧
      codePoint lead tail = c.toNat := by
  have hc := valid_toNat c
  have hbyte {n : Nat} (h : n < 256) : (UInt8.ofNat n).toNat = n := UInt8.toNat_ofNat_of_lt' h
  unfold encodeChar
  simp only
  split_ifs with h1 h2 h3
  · refine ⟨_, [], rfl, sequence_iff.mpr (.inl ⟨rfl, ?_⟩), ?_⟩
    · rw [hbyte (by omega)]
      exact h1
    · exact hbyte (by omega)
  · have hl : (UInt8.ofNat (0xC0 + c.toNat / 64)).toNat = _ := hbyte (by omega)
    have hb : (UInt8.ofNat (0x80 + c.toNat % 64)).toNat = _ := hbyte (by omega)
    refine ⟨_, [_], rfl, sequence_iff.mpr (.inr (.inl ⟨_, rfl, ?_, ?_, ?_⟩)), ?_⟩
    · omega
    · omega
    · rw [Continues, hb]
      omega
    · simp only [codePoint, List.length_cons, List.length_nil, List.foldl, hl, hb]
      omega
  · have hl : (UInt8.ofNat (0xE0 + c.toNat / 4096)).toNat = _ := hbyte (by omega)
    have hb : (UInt8.ofNat (0x80 + c.toNat / 64 % 64)).toNat = _ := hbyte (by omega)
    have hd : (UInt8.ofNat (0x80 + c.toNat % 64)).toNat = _ := hbyte (by omega)
    refine ⟨_, [_, _], rfl, sequence_iff.mpr (.inr (.inr (.inl ⟨_, _, rfl, ?_⟩))), ?_⟩
    · simp only [Continues, hl, hb, hd]
      omega
    · simp only [codePoint, List.length_cons, List.length_nil, List.foldl, hl, hb, hd]
      omega
  · have hl : (UInt8.ofNat (0xF0 + c.toNat / 262144)).toNat = _ := hbyte (by omega)
    have hb : (UInt8.ofNat (0x80 + c.toNat / 4096 % 64)).toNat = _ := hbyte (by omega)
    have hd : (UInt8.ofNat (0x80 + c.toNat / 64 % 64)).toNat = _ := hbyte (by omega)
    have he : (UInt8.ofNat (0x80 + c.toNat % 64)).toNat = _ := hbyte (by omega)
    refine ⟨_, [_, _, _], rfl, sequence_iff.mpr (.inr (.inr (.inr ⟨_, _, _, rfl, ?_⟩))), ?_⟩
    · simp only [Continues, hl, hb, hd, he]
      omega
    · simp only [codePoint, List.length_cons, List.length_nil, List.foldl, hl, hb, hd, he]
      omega

/-! ## Texts -/

theorem piecesOnto_append (cut before : List Piece) (s : Bytes) :
    piecesOnto (cut ++ before) s = before.reverse ++ piecesOnto cut s := by
  induction cut, s using piecesOnto.induct with
  | case1 cut => simp [piecesOnto]
  | case2 cut b s ih => rw [piecesOnto, piecesOnto, ← List.cons_append, ih]

@[simp] theorem pieces_nil : pieces [] = [] := by
  simp [pieces, piecesOnto]

theorem pieces_cons (b : UInt8) (s : Bytes) :
    pieces (b :: s) = (cutPiece b s).1 :: pieces (cutPiece b s).2 := by
  rw [pieces, piecesOnto]
  exact piecesOnto_append [] [(cutPiece b s).1] (cutPiece b s).2

theorem encode_cons (c : Char) (text : List Char) :
    encode (c :: text) = encodeChar c ++ encode text := List.flatMap_cons

/-- The bytes of a text are cut into its characters, and no other bytes are. -/
theorem pieces_eq_map_char_iff {s : Bytes} {text : List Char} :
    pieces s = text.map .char ↔ s = encode text := by
  induction text generalizing s with
  | nil =>
    cases s with
    | nil => simp [encode]
    | cons b s => simp [pieces_cons, encode]
  | cons c text ih =>
    rw [List.map_cons, encode_cons]
    constructor
    · intro h
      cases s with
      | nil => simp at h
      | cons b s =>
        rw [pieces_cons] at h
        obtain ⟨hc, hrest⟩ := List.cons.inj h
        obtain ⟨tail, hs, hseq, rfl⟩ := cutPiece_eq_char_iff.mp (Prod.ext hc rfl)
        rw [encodeChar_codePoint hseq, List.cons_append, ← ih.mp hrest, ← hs]
    · rintro rfl
      obtain ⟨lead, tail, he, hseq, hcode⟩ := sequence_of_encodeChar c
      have hcut : cutPiece lead (tail ++ encode text) = (.char c, encode text) :=
        cutPiece_eq_char_iff.mpr ⟨tail, rfl, hseq, by rw [hcode, Char.ofNat_toNat]⟩
      rw [he, List.cons_append, pieces_cons, hcut, ih.mpr rfl]

theorem eq_map_char {ps : List Piece} (h : ∀ p ∈ ps, p.char?.isSome = true) :
    ps = (ps.filterMap Piece.char?).map .char := by
  induction ps with
  | nil => rfl
  | cons p ps ih =>
    have hps := ih fun q hq => h q (List.mem_cons_of_mem p hq)
    cases p with
    | char c =>
      rw [List.filterMap_cons, Piece.char?]
      exact congrArg (Piece.char c :: ·) hps
    | invalid | truncated => simpa [Piece.char?] using h _ List.mem_cons_self

theorem decode_eq_ok_iff_pieces {s : Bytes} {text : List Char} :
    decode s = .ok text ↔ pieces s = text.map .char := by
  unfold decode
  generalize pieces s = ps
  simp only
  constructor
  · intro h
    have hgood := List.takeWhile_append_dropWhile (p := (·.char?.isSome)) (l := ps)
    have hfirst := List.head?_dropWhile_not (·.char?.isSome) ps
    split at h
    · cases h
    · cases h
    · rename_i hinvalid htruncated
      have hend : ps.dropWhile (·.char?.isSome) = [] := by
        cases hd : ps.dropWhile (·.char?.isSome) with
        | nil => rfl
        | cons p rest =>
          cases p with
          | char c =>
            rw [hd] at hfirst
            simp [Piece.char?] at hfirst
          | invalid bytes => exact absurd hd (hinvalid bytes rest)
          | truncated bytes => exact absurd hd (htruncated bytes rest)
      rw [hend, List.append_nil] at hgood
      rw [hgood, Except.ok.injEq] at h
      rw [← h]
      exact eq_map_char (List.dropWhile_eq_nil_iff.mp hend)
  · rintro rfl
    have hall : ∀ p ∈ text.map Piece.char, p.char?.isSome = true := by
      intro p hp
      obtain ⟨c, -, rfl⟩ := List.mem_map.mp hp
      rfl
    rw [List.dropWhile_eq_nil_iff.mpr hall, List.takeWhile_eq_self_iff.mpr hall]
    simp only [List.filterMap_map]
    exact congrArg Except.ok (List.filterMap_some)

/-- **Bytes stand for a text exactly when they are its encoding.** -/
theorem decode_eq_ok_iff {s : Bytes} {text : List Char} :
    decode s = .ok text ↔ s = encode text :=
  decode_eq_ok_iff_pieces.trans pieces_eq_map_char_iff

end Coprocess.Utf8
