import Coprocess.Text.Base64
import Mathlib.Data.List.TakeWhile
import Mathlib.Tactic.SplitIfs

/-!
# Base64 by quads

A quad of symbols stands for three bytes, and a padded one for fewer. Since padding and left-over
bits are judged, bytes have one base64 text only.

* `Base64.symbol_of_value?`, `Base64.value?_symbol`: symbols and their numbers;
  `Base64.lf_not_mem_encode`;
* `Base64.numbersOf`, `Base64.bytesOf_numbersOf`, `Base64.numbersOf_bytesOf`: bytes are cut into
  numbers, and found again in these;
* `Base64.encode_of_decodeLast`, `Base64.decodeLast_symbols`: the last quad;
* `Base64.quads_encode`: the quads of encoded bytes are decoded one by one;
* **`Base64.encode_of_decode`**: what is decoded is encoded as it was;
* **`Base64.decode_encode`**: what is encoded is decoded as it was.
-/

namespace Coprocess.Base64

/-! ## Symbols -/

theorem symbol_of_value? {b : UInt8} {n : Nat} (h : value? b = some n) : symbol n = b ∧ n < 64 := by
  unfold value? at h
  simp only at h
  split_ifs at h with h1 h2 h3 h4 h5 <;> cases h <;> refine ⟨?_, by omega⟩
  · rw [symbol, if_pos (by omega), UInt8.ofNat_eq_iff_mod_eq_toNat]
    omega
  · rw [symbol, if_neg (by omega), if_pos (by omega), UInt8.ofNat_eq_iff_mod_eq_toNat]
    omega
  · rw [symbol, if_neg (by omega), if_neg (by omega), if_pos (by omega),
      UInt8.ofNat_eq_iff_mod_eq_toNat]
    omega
  · rw [← UInt8.toNat_inj, h4]
    rfl
  · rw [← UInt8.toNat_inj, h5]
    rfl

theorem value?_symbol {n : Nat} (h : n < 64) : value? (symbol n) = some n := by
  revert n
  decide

theorem map_symbol_of_numbers {offset : Nat} {s : Bytes} {ns : List Nat}
    (h : numbers offset s = .ok ns) : ns.map symbol = s ∧ ∀ n ∈ ns, n < 64 := by
  induction s generalizing offset ns with
  | nil =>
    cases h
    simp
  | cons b s ih =>
    rw [numbers, number] at h
    cases hv : value? b with
    | none =>
      rw [hv] at h
      cases h
    | some n =>
      rw [hv] at h
      cases hr : numbers (offset + 1) s with
      | error e =>
        rw [hr] at h
        cases h
      | ok rest =>
        rw [hr] at h
        cases h
        obtain ⟨hs, hlt⟩ := ih hr
        obtain ⟨hb, hn⟩ := symbol_of_value? hv
        refine ⟨by rw [List.map_cons, hs, hb], ?_⟩
        intro m hm
        rcases List.mem_cons.mp hm with rfl | hm
        · exact hn
        · exact hlt m hm

theorem numbers_map_symbol {ns : List Nat} (h : ∀ n ∈ ns, n < 64) (offset : Nat) :
    numbers offset (ns.map symbol) = .ok ns := by
  induction ns generalizing offset with
  | nil => rfl
  | cons n ns ih =>
    have hn : value? (symbol n) = some n := value?_symbol (h n List.mem_cons_self)
    have hns := ih (fun m hm => h m (List.mem_cons_of_mem n hm)) (offset + 1)
    rw [List.map_cons, numbers, number, hn, hns]
    rfl

theorem lf_ne_symbol (n : Nat) : lf ≠ symbol n := by
  intro h
  have hn : (symbol n).toNat = 10 := by
    rw [← h]
    rfl
  unfold symbol at hn
  split_ifs at hn with h1 h2 h3 h4
  · rw [UInt8.toNat_ofNat'] at hn
    omega
  · rw [UInt8.toNat_ofNat'] at hn
    omega
  · rw [UInt8.toNat_ofNat'] at hn
    omega
  · cases hn
  · cases hn

theorem symbol_ne_pad (n : Nat) : symbol n ≠ pad := by
  by_cases h : n < 64
  · intro he
    have hv := value?_symbol h
    rw [he] at hv
    cases hv
  · unfold symbol
    rw [if_neg (by omega), if_neg (by omega), if_neg (by omega), if_neg (by omega)]
    decide

theorem lf_not_mem_encode (s : Bytes) : lf ∉ encode s := by
  have hpad : lf ≠ pad := by decide
  fun_induction encode s with
  | case1 => exact List.not_mem_nil
  | case2 | case3 => simp [lf_ne_symbol, hpad]
  | case4 a b c s ih => simp [lf_ne_symbol, ih]

/-! ## Bytes as numbers -/

/-- The numbers that one, two or three bytes are cut into. -/
def numbersOf : Bytes → List Nat
  | [a] => [a.toNat / 4, a.toNat % 4 * 16]
  | [a, b] => [a.toNat / 4, a.toNat % 4 * 16 + b.toNat / 16, b.toNat % 16 * 4]
  | [a, b, c] =>
    [a.toNat / 4, a.toNat % 4 * 16 + b.toNat / 16, b.toNat % 16 * 4 + c.toNat / 64, c.toNat % 64]
  | _ => []

theorem length_numbersOf {s : Bytes} (h : s ≠ []) (h3 : s.length ≤ 3) :
    (numbersOf s).length = s.length + 1 := by
  match s, h, h3 with
  | [_], _, _ | [_, _], _, _ | [_, _, _], _, _ => rfl

theorem numbersOf_lt (s : Bytes) : ∀ n ∈ numbersOf s, n < 64 := by
  have hbyte (b : UInt8) : b.toNat < 256 := b.toNat_lt
  unfold numbersOf
  split
  · rename_i a
    have ha := hbyte a
    simp only [List.mem_cons, List.not_mem_nil, or_false, forall_eq_or_imp, forall_eq]
    omega
  · rename_i a b
    have ha := hbyte a
    have hb := hbyte b
    simp only [List.mem_cons, List.not_mem_nil, or_false, forall_eq_or_imp, forall_eq]
    omega
  · rename_i a b c
    have ha := hbyte a
    have hb := hbyte b
    have hc := hbyte c
    simp only [List.mem_cons, List.not_mem_nil, or_false, forall_eq_or_imp, forall_eq]
    omega
  · exact fun n hn => absurd hn List.not_mem_nil

theorem leftOver_numbersOf (s : Bytes) : leftOver (numbersOf s) = 0 := by
  unfold numbersOf
  split
  · exact Nat.mul_mod_left _ 16
  · exact Nat.mul_mod_left _ 4
  · rfl
  · rfl

theorem bytesOf_numbersOf {s : Bytes} (h3 : s.length ≤ 3) : bytesOf (numbersOf s) = s := by
  have hbyte {b : UInt8} {n : Nat} (h : n = b.toNat) : UInt8.ofNat n = b := by
    rw [h, UInt8.ofNat_toNat]
  match s, h3 with
  | [], _ => rfl
  | [a], _ =>
    have ha := a.toNat_lt
    have hx : UInt8.ofNat (a.toNat / 4 * 4 + a.toNat % 4 * 16 / 16) = a := hbyte (by omega)
    exact congrArg ([·]) hx
  | [a, b], _ =>
    have hb := b.toNat_lt
    simp only [numbersOf, bytesOf]
    rw [hbyte (b := a) (by omega), hbyte (b := b) (by omega)]
  | [a, b, c], _ =>
    have hb := b.toNat_lt
    have hc := c.toNat_lt
    simp only [numbersOf, bytesOf]
    rw [hbyte (b := a) (by omega), hbyte (b := b) (by omega), hbyte (b := c) (by omega)]

theorem length_bytesOf {ns : List Nat} (h2 : 2 ≤ ns.length) (h4 : ns.length ≤ 4) :
    (bytesOf ns).length + 1 = ns.length := by
  match ns, h2, h4 with
  | [_, _], _, _ | [_, _, _], _, _ | [_, _, _, _], _, _ => rfl

theorem numbersOf_bytesOf {ns : List Nat} (h2 : 2 ≤ ns.length) (h4 : ns.length ≤ 4)
    (hlt : ∀ n ∈ ns, n < 64) (hover : leftOver ns = 0) : numbersOf (bytesOf ns) = ns := by
  have hbyte {n : Nat} (h : n < 256) : (UInt8.ofNat n).toNat = n := UInt8.toNat_ofNat_of_lt' h
  match ns, h2, h4 with
  | [a, b], _, _ =>
    simp only [List.mem_cons, List.not_mem_nil, or_false, forall_eq_or_imp, forall_eq] at hlt
    obtain ⟨ha, hb⟩ := hlt
    simp only [leftOver] at hover
    simp only [bytesOf, numbersOf, hbyte (n := a * 4 + b / 16) (by omega), List.cons.injEq,
      and_true]
    omega
  | [a, b, c], _, _ =>
    simp only [List.mem_cons, List.not_mem_nil, or_false, forall_eq_or_imp, forall_eq] at hlt
    obtain ⟨ha, hb, hc⟩ := hlt
    simp only [leftOver] at hover
    simp only [bytesOf, numbersOf, hbyte (n := a * 4 + b / 16) (by omega),
      hbyte (n := b % 16 * 16 + c / 4) (by omega), List.cons.injEq, and_true]
    omega
  | [a, b, c, d], _, _ =>
    simp only [List.mem_cons, List.not_mem_nil, or_false, forall_eq_or_imp, forall_eq] at hlt
    obtain ⟨ha, hb, hc, hd⟩ := hlt
    simp only [bytesOf, numbersOf, hbyte (n := a * 4 + b / 16) (by omega),
      hbyte (n := b % 16 * 16 + c / 4) (by omega), hbyte (n := c % 4 * 64 + d) (by omega),
      List.cons.injEq, and_true]
    omega

theorem encode_last {s : Bytes} (h : s ≠ []) (h3 : s.length ≤ 3) :
    encode s = (numbersOf s).map symbol ++ List.replicate (3 - s.length) pad := by
  match s, h, h3 with
  | [_], _, _ | [_, _], _, _ | [_, _, _], _, _ => rfl

theorem encode_append {t : Bytes} (h : t.length = 3) (s : Bytes) :
    encode (t ++ s) = (numbersOf t).map symbol ++ encode s := by
  match t, h with
  | [_, _, _], _ => rfl

theorem encode_bytesOf {ns : List Nat} (hlen : ns.length = 4) (hlt : ∀ n ∈ ns, n < 64) (s : Bytes) :
    encode (bytesOf ns ++ s) = ns.map symbol ++ encode s := by
  have hover : leftOver ns = 0 := by
    match ns, hlen with
    | [_, _, _, _], _ => rfl
  have hbytes : (bytesOf ns).length + 1 = ns.length := length_bytesOf (by omega) (by omega)
  rw [encode_append (by omega), numbersOf_bytesOf (by omega) (by omega) hlt hover]

/-! ## The last quad -/

theorem decodeLast_eq_ok {offset : Nat} {quad bytes : Bytes} (hlen : quad.length ≤ 4)
    (h : decodeLast offset quad = .ok bytes) :
    ∃ ns k, quad = ns.map symbol ++ List.replicate k pad ∧ (∀ n ∈ ns, n < 64) ∧
      2 ≤ ns.length ∧ ns.length + k = 4 ∧ leftOver ns = 0 ∧ bytes = bytesOf ns := by
  have hquad : quad.takeWhile (· ≠ pad) ++ quad.dropWhile (· ≠ pad) = quad :=
    List.takeWhile_append_dropWhile
  unfold decodeLast lastQuad at h
  simp only [bind, Except.bind] at h
  cases hn : numbers offset (quad.takeWhile (· ≠ pad)) with
  | error e =>
    rw [hn] at h
    cases h
  | ok ns =>
    obtain ⟨hs, hlt⟩ := map_symbol_of_numbers hn
    rw [hn] at h
    by_cases hbad : quad.dropWhile (· ≠ pad) ≠ [] ∧ ((quad.takeWhile (· ≠ pad)).length < 2 ∨
        (quad.dropWhile (· ≠ pad)).any (· ≠ pad) = true)
    · simp only [if_pos hbad] at h
      cases h
    simp only [if_neg hbad, pure, Except.pure] at h
    split_ifs at h with h1 h2 h3
    cases h
    have hk : quad.dropWhile (· ≠ pad) =
        List.replicate (quad.dropWhile (· ≠ pad)).length pad := by
      refine List.eq_replicate_iff.mpr ⟨rfl, fun b hb => ?_⟩
      by_contra hne
      refine hbad ⟨List.ne_nil_of_mem hb, .inr (List.any_eq_true.mpr ⟨b, hb, ?_⟩)⟩
      exact decide_eq_true hne
    refine ⟨ns, (quad.dropWhile (· ≠ pad)).length, ?_, hlt, by omega, ?_, by omega, rfl⟩
    · rw [← hk, hs, hquad]
    · have hl := congrArg List.length hquad
      rw [← hs, List.length_append, List.length_map] at hl
      omega

theorem encode_of_decodeLast {offset : Nat} {quad bytes : Bytes} (hlen : quad.length ≤ 4)
    (h : decodeLast offset quad = .ok bytes) : encode bytes = quad := by
  obtain ⟨ns, k, rfl, hlt, h2, h4, hover, rfl⟩ := decodeLast_eq_ok hlen h
  have hbytes : (bytesOf ns).length + 1 = ns.length := length_bytesOf h2 (by omega)
  have hne : bytesOf ns ≠ [] := List.ne_nil_of_length_pos (by omega)
  have hk : 3 - (bytesOf ns).length = k := by omega
  rw [encode_last hne (by omega), numbersOf_bytesOf h2 (by omega) hlt hover, hk]

/-- A quad of at least two symbols with padding behind them is read as their numbers. -/
theorem lastQuad_symbols {ns : List Nat} (hlt : ∀ n ∈ ns, n < 64) (h2 : 2 ≤ ns.length)
    (offset k : Nat) :
    lastQuad offset (ns.map symbol ++ List.replicate k pad) = .ok (ns, k) := by
  have hsymbols : ∀ b ∈ ns.map symbol, decide (b ≠ pad) = true := by
    intro b hb
    obtain ⟨n, -, rfl⟩ := List.mem_map.mp hb
    exact decide_eq_true (symbol_ne_pad n)
  have htake : (ns.map symbol ++ List.replicate k pad).takeWhile (· ≠ pad) = ns.map symbol := by
    rw [List.takeWhile_append_of_pos hsymbols]
    simp
  have hdrop : (ns.map symbol ++ List.replicate k pad).dropWhile (· ≠ pad) =
      List.replicate k pad := by
    rw [List.dropWhile_append_of_pos hsymbols]
    simp
  have hgood : ¬ (List.replicate k pad ≠ [] ∧
      (ns.length < 2 ∨ (List.replicate k pad).any (· ≠ pad) = true)) := by
    rintro ⟨-, hshort | hany⟩
    · omega
    · simp at hany
  unfold lastQuad
  simp only [htake, hdrop, numbers_map_symbol hlt, List.length_map, bind, Except.bind]
  rw [if_neg hgood, List.length_replicate]
  rfl

theorem decodeLast_symbols {ns : List Nat} {k : Nat} (hlt : ∀ n ∈ ns, n < 64) (h2 : 2 ≤ ns.length)
    (h4 : ns.length + k = 4) (hover : leftOver ns = 0) (offset : Nat) :
    decodeLast offset (ns.map symbol ++ List.replicate k pad) = .ok (bytesOf ns) := by
  unfold decodeLast
  rw [lastQuad_symbols hlt h2]
  simp only [bind, Except.bind]
  rw [if_neg (by omega), if_neg (by omega), if_neg (by omega)]
  rfl

/-! ## Texts -/

theorem flatten_quads (s : Bytes) : (quads s).flatten = s := by
  fun_induction quads s <;> simp_all

theorem quads_eq (s : Bytes) :
    ∃ whole last, quads s = whole ++ [last] ∧ (∀ quad ∈ whole, quad.length = 4) ∧
      last.length ≤ 4 := by
  fun_induction quads s with
  | case1 a b c d e s ih =>
    obtain ⟨whole, last, he, hw, hl⟩ := ih
    refine ⟨[a, b, c, d] :: whole, last, by rw [he]; rfl, ?_, hl⟩
    simpa using hw
  | case2 s hs =>
    refine ⟨[], s, rfl, by simp, ?_⟩
    match s, hs with
    | [], _ | [_], _ | [_, _], _ | [_, _, _], _ | [_, _, _, _], _ => simp
    | a :: b :: c :: d :: e :: s, hs => exact absurd rfl (hs a b c d e s)

/-- Whole quads that are decoded are found again, in front of whatever follows. -/
theorem encode_of_mapM {quads : List Bytes} (hlen : ∀ quad ∈ quads, quad.length = 4) {i : Nat}
    {whole : List Bytes}
    (h : ((quads.zipIdx i).mapM fun (quad, i) => bytesOf <$> numbers (4 * i) quad) = .ok whole)
    (s : Bytes) : encode (whole.flatten ++ s) = quads.flatten ++ encode s := by
  induction quads generalizing i whole with
  | nil =>
    cases h
    rfl
  | cons quad quads ih =>
    rw [List.zipIdx_cons, List.mapM_cons] at h
    cases hn : numbers (4 * i) quad with
    | error e =>
      simp only [hn] at h
      cases h
    | ok ns =>
      cases hr : (quads.zipIdx (i + 1)).mapM
          (fun (quad, i) => bytesOf <$> numbers (4 * i) quad) with
      | error e =>
        simp only [hn, hr] at h
        cases h
      | ok rest =>
        simp only [hn, hr] at h
        cases h
        obtain ⟨hs, hlt⟩ := map_symbol_of_numbers hn
        have hquad : ns.length = 4 := by
          rw [← List.length_map (f := symbol), hs, hlen quad List.mem_cons_self]
        have hrest := ih (fun q hq => hlen q (List.mem_cons_of_mem quad hq)) hr
        rw [List.flatten_cons, List.flatten_cons, List.append_assoc, List.append_assoc,
          encode_bytesOf hquad hlt, hs, hrest]

/-- **What is decoded is encoded as it was.** -/
theorem encode_of_decode {s document : Bytes} (h : decode s = .ok document) :
    encode document = s := by
  unfold decode at h
  by_cases he : s.isEmpty = true
  · rw [if_pos he] at h
    cases h
    rw [List.isEmpty_iff.mp he]
    rfl
  rw [if_neg he] at h
  obtain ⟨whole, last, hq, hw, hl⟩ := quads_eq s
  have hflat := flatten_quads s
  simp only [hq, List.dropLast_concat] at h hflat
  cases hc : checkStray s with
  | error e =>
    simp only [hc] at h
    cases h
  | ok =>
    cases hm : whole.zipIdx.mapM (fun (quad, i) => bytesOf <$> numbers (4 * i) quad) with
    | error e =>
      simp only [hc, hm] at h
      cases h
    | ok bytes =>
      cases hd : decodeLast (4 * ((whole ++ [last]).length - 1))
          ((whole ++ [last]).getLastD []) with
      | error e =>
        simp only [hc, hm, hd] at h
        cases h
      | ok rest =>
        simp only [hc, hm, hd] at h
        cases h
        rw [List.getLastD_concat] at hd
        rw [encode_of_mapM hw hm, encode_of_decodeLast hl hd, ← hflat]
        simp

theorem encode_ne_nil {s : Bytes} (h : s ≠ []) : encode s ≠ [] := by
  fun_induction encode s with
  | case1 => exact absurd rfl h
  | case2 | case3 | case4 => exact List.cons_ne_nil _ _

theorem length_encode_mod (s : Bytes) : (encode s).length % 4 = 0 := by
  fun_induction encode s with
  | case1 => rfl
  | case2 | case3 => simp
  | case4 a b c s ih =>
    simp only [List.length_cons]
    omega

theorem quads_append {quad s : Bytes} (hlen : quad.length = 4) (hs : s ≠ []) :
    quads (quad ++ s) = quad :: quads s := by
  obtain ⟨e, s, rfl⟩ := List.exists_cons_of_ne_nil hs
  match quad, hlen with
  | [a, b, c, d], _ => rfl

theorem quads_of_length_le {s : Bytes} (h : s.length ≤ 4) : quads s = [s] := by
  match s, h with
  | [], _ | [_], _ | [_, _], _ | [_, _, _], _ | [_, _, _, _], _ => rfl

/-- Bytes are none, at most three, or three and some more. -/
theorem three_induction {motive : Bytes → Prop} (nil : motive [])
    (few : ∀ s, s ≠ [] → s.length ≤ 3 → motive s)
    (three : ∀ t s, t.length = 3 → s ≠ [] → motive s → motive (t ++ s)) : ∀ s, motive s
  | [] => nil
  | [a] => few [a] (List.cons_ne_nil a []) (by simp)
  | [a, b] => few [a, b] (List.cons_ne_nil a [b]) (by simp)
  | [a, b, c] => few [a, b, c] (List.cons_ne_nil a [b, c]) (by simp)
  | a :: b :: c :: d :: s =>
    three [a, b, c] (d :: s) rfl (List.cons_ne_nil d s) (three_induction nil few three (d :: s))

theorem quads_encode {s : Bytes} (h : s ≠ []) :
    ∃ whole last bytes rest, quads (encode s) = whole ++ [last] ∧
      (∀ i, ((whole.zipIdx i).mapM fun (quad, i) => bytesOf <$> numbers (4 * i) quad) =
        .ok bytes) ∧
      (∀ offset, decodeLast offset last = .ok rest) ∧ bytes.flatten ++ rest = s := by
  induction s using three_induction with
  | nil => exact absurd rfl h
  | few s hne h3 =>
    have hlen := length_numbersOf hne h3
    have hpos := List.length_pos_iff.mpr hne
    refine ⟨[], encode s, [], s, ?_, fun _ => rfl, fun offset => ?_, rfl⟩
    · refine quads_of_length_le ?_
      rw [encode_last hne h3, List.length_append, List.length_map, List.length_replicate]
      omega
    · rw [encode_last hne h3, decodeLast_symbols (numbersOf_lt s) (by omega) (by omega)
        (leftOver_numbersOf s), bytesOf_numbersOf h3]
  | three t s ht hne ih =>
    obtain ⟨whole, last, bytes, rest, hq, hw, hl, rfl⟩ := ih hne
    have hquad : ((numbersOf t).map symbol).length = 4 := by
      rw [List.length_map, length_numbersOf (by rintro rfl; cases ht) (Nat.le_of_eq ht), ht]
    refine ⟨(numbersOf t).map symbol :: whole, last, t :: bytes, rest, ?_, fun i => ?_, hl,
      List.append_assoc ..⟩
    · rw [encode_append ht, quads_append hquad (encode_ne_nil hne), hq]
      rfl
    · have hfirst : bytesOf <$> numbers (4 * i) ((numbersOf t).map symbol) = .ok t := by
        rw [numbers_map_symbol (numbersOf_lt t)]
        exact congrArg Except.ok (bytesOf_numbersOf (Nat.le_of_eq ht))
      rw [List.zipIdx_cons, List.mapM_cons]
      simp only [hfirst, hw]
      rfl

/-- **What is encoded is decoded as it was.** -/
theorem decode_encode (s : Bytes) : decode (encode s) = .ok s := by
  by_cases hs : s = []
  · rw [hs]
    rfl
  obtain ⟨whole, last, bytes, rest, hq, hw, hl, hflat⟩ := quads_encode hs
  have hstray : checkStray (encode s) = .ok () := by
    unfold checkStray
    split
    · rw [if_neg]
      rintro ⟨h1, -⟩
      rw [length_encode_mod] at h1
      cases h1
    · rfl
  have hne : (encode s).isEmpty = false := by simpa using encode_ne_nil hs
  unfold decode
  simp only [hne, hstray, hq, List.dropLast_concat, List.getLastD_concat, hw, hl, hflat, bind,
    Except.bind]
  rfl

end Coprocess.Base64
