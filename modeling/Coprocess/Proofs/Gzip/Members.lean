import Coprocess.Gzip.Member
import Coprocess.Proofs.KeyedLists
import Coprocess.Proofs.Text.Numbers
import Mathlib.Algebra.Ring.Nat
import Mathlib.Data.List.Forall2

/-!
# Members that were written

Members are read as the data that were written into them.

* `Gzip.inflateBlocks_storedBlocks`: stored blocks are inflated;
* `Gzip.IsMember`: a header, deflated data of any kind and a trailer; `Gzip.isMember_compress`;
* `Gzip.membersFrom_members`: members one after the other;
* **`Gzip.openInput_members`**: an input of members, in whatever reads it arrives.
-/

namespace Coprocess

namespace Gzip

/-! ## Stored blocks -/

theorem inflateStored_append {s : Bytes} (hs : s.length ≤ blockSize) (first : UInt8)
    (out : Array UInt8) (rest : Bytes) :
    inflateStored out ⟨first :: (littleEndian 2 s.length ++ littleEndian 2 (65535 - s.length) ++
      s ++ rest), 3⟩ = (out ++ s, .ok ⟨rest, 0⟩) := by
  unfold blockSize at hs
  have hlen : ofLittleEndian (littleEndian 2 s.length) = s.length :=
    ofLittleEndian_littleEndian (by omega)
  have hcheck : ofLittleEndian (littleEndian 2 (65535 - s.length)) = 65535 - s.length :=
    ofLittleEndian_littleEndian (by omega)
  obtain ⟨a, b, hab⟩ := List.length_eq_two.mp (littleEndian_length 2 s.length)
  obtain ⟨c, d, hcd⟩ := List.length_eq_two.mp (littleEndian_length 2 (65535 - s.length))
  rw [hab] at hlen ⊢
  rw [hcd] at hcheck ⊢
  have hshort : ¬ (s ++ rest).length < s.length := by
    rw [List.length_append]
    omega
  have hsum : ¬ s.length + (65535 - s.length) ≠ 65535 := by omega
  have halign : Bits.align ⟨first :: ([a, b] ++ [c, d] ++ s ++ rest), 3⟩ =
      a :: b :: c :: d :: (s ++ rest) := by simp [Bits.align]
  unfold inflateStored
  simp only [halign, hlen, hcheck]
  rw [if_neg hsum, if_neg hshort, List.take_left, List.drop_left]

theorem storedHead (last : Bool) (rest : Bytes) :
    (do let (last, s) ← Bits.bit ⟨(if last then 1 else 0) :: rest, 0⟩
        let (kind, s) ← s.number 2
        return (last, kind, s) : Except InflateFault (Nat × Nat × Bits)) =
      .ok (if last then 1 else 0, 0, ⟨(if last then 1 else 0) :: rest, 3⟩) := by
  cases last <;> simp [Bits.bit, Bits.number, bind, Except.bind, pure, Except.pure]

theorem inflateBlocks_storedBlock {s : Bytes} (hs : s.length ≤ blockSize) (last : Bool)
    (fuel : Nat) (out : Array UInt8) (rest : Bytes) :
    inflateBlocks (fuel + 1) out ⟨storedBlock last s ++ rest, 0⟩ =
      if last then (out ++ s, .ok ⟨rest, 0⟩)
      else inflateBlocks fuel (out ++ s) ⟨rest, 0⟩ := by
  have hblock : storedBlock last s ++ rest = (if last then 1 else 0) ::
      (littleEndian 2 s.length ++ littleEndian 2 (65535 - s.length) ++ s ++ rest) := by
    simp [storedBlock]
  rw [inflateBlocks, hblock]
  simp only [storedHead, inflateBlock, inflateStored_append hs]
  cases last <;> rfl

/-- **Stored blocks are inflated to what is stored in them.** -/
theorem inflateBlocks_storedBlocks (s : Bytes) {fuel : Nat} (hfuel : s.length < fuel)
    (out : Array UInt8) (rest : Bytes) :
    inflateBlocks fuel out ⟨storedBlocks s ++ rest, 0⟩ = (out ++ s, .ok ⟨rest, 0⟩) := by
  induction s using storedBlocks.induct generalizing fuel out with
  | case1 s hs =>
    obtain ⟨fuel, rfl⟩ := Nat.exists_eq_succ_of_ne_zero (Nat.ne_of_gt (Nat.zero_lt_of_lt hfuel))
    rw [storedBlocks, dif_pos hs, inflateBlocks_storedBlock hs, if_pos rfl]
  | case2 s hs ih =>
    obtain ⟨fuel, rfl⟩ := Nat.exists_eq_succ_of_ne_zero (Nat.ne_of_gt (Nat.zero_lt_of_lt hfuel))
    have hpos : 0 < blockSize := by decide
    have htake : (s.take blockSize).length ≤ blockSize := List.length_take_le _ _
    have hdrop : (s.drop blockSize).length < fuel := by
      rw [List.length_drop]
      omega
    have hout : out ++ s.take blockSize ++ s.drop blockSize = out ++ s := by
      apply Array.ext'
      simp
    rw [storedBlocks, dif_neg hs, List.append_assoc, inflateBlocks_storedBlock htake,
      if_neg Bool.false_ne_true, ih hdrop, hout]

theorem length_le_length_storedBlocks (s : Bytes) : s.length ≤ (storedBlocks s).length := by
  induction s using storedBlocks.induct with
  | case1 s hs =>
    rw [storedBlocks, dif_pos hs]
    simp only [storedBlock, List.length_append]
    omega
  | case2 s hs ih =>
    rw [storedBlocks, dif_neg hs, List.length_append]
    simp only [storedBlock, List.length_append, List.length_take, List.length_drop] at ih ⊢
    omega

theorem inflate_storedBlocks (s rest : Bytes) :
    inflate (storedBlocks s ++ rest) = (s.toArray, .ok rest) := by
  have hfuel : s.length < 8 * (storedBlocks s ++ rest).length + 1 := by
    have hle := length_le_length_storedBlocks s
    rw [List.length_append]
    omega
  have hout : (#[] : Array UInt8) ++ s = s.toArray := by
    apply Array.ext'
    simp
  rw [inflate, inflateBlocks_storedBlocks s hfuel, hout]
  rfl

/-! ## Members -/

theorem length_trailer (s : Bytes) : (trailer s).length = 8 := by
  rw [trailer, List.length_append, littleEndian_length, littleEndian_length]

theorem readBody_append {body s : Bytes}
    (hbody : ∀ rest, inflate (body ++ rest) = (s.toArray, .ok rest)) (left : List Nat)
    (rest : Bytes) : readBody left (body ++ trailer s ++ rest) = (s.toArray, .inl rest) := by
  have hlong : ¬ (trailer s ++ rest).length < 8 := by
    rw [List.length_append, length_trailer]
    omega
  have htake : (trailer s ++ rest).take 8 = trailer s := by
    rw [← length_trailer s, List.take_left]
  have hdrop : (trailer s ++ rest).drop 8 = rest := by
    rw [← length_trailer s, List.drop_left]
  rw [List.append_assoc, readBody, hbody]
  simp only
  rw [if_neg hlong, htake, if_neg (not_not_intro rfl), hdrop]

theorem skip_plainHeader (s : Bytes) : Header.skip (plainHeader ++ s) = .ok s := by
  have hlong : ¬ (plainHeader ++ s).length < 10 := by
    rw [List.length_append]
    exact Nat.not_lt.mpr (Nat.le_add_right 10 s.length)
  unfold Header.skip
  rw [if_neg hlong]
  simp [plainHeader, magic, pure, Except.pure]

theorem magic_prefix_of_skip {s body : Bytes} (h : Header.skip s = .ok body) : magic <+: s := by
  unfold Header.skip at h
  by_cases hlong : s.length < 10
  · rw [if_pos hlong] at h
    cases h
  by_cases hstart : s.take 2 = magic
  · exact hstart ▸ List.take_prefix 2 s
  · rw [if_neg hlong, if_pos (.inl hstart)] at h
    cases h

/-- Bytes that are one member with the data `s`: a header, deflated data and a trailer. -/
def IsMember (m s : Bytes) : Prop :=
  ∃ header body, m = header ++ (body ++ trailer s) ∧
    (∀ rest, Header.skip (header ++ rest) = .ok rest) ∧
    ∀ rest, inflate (body ++ rest) = (s.toArray, .ok rest)

theorem isMember_compress (s : Bytes) : IsMember (compress s) s :=
  ⟨plainHeader, storedBlocks s, by simp [compress], skip_plainHeader, inflate_storedBlocks s⟩

namespace IsMember

variable {m s : Bytes} (h : IsMember m s)
include h

theorem skip (rest : Bytes) : ∃ body, Header.skip (m ++ rest) = .ok body ∧
    ∀ left, readBody left body = (s.toArray, .inl rest) := by
  obtain ⟨header, body, rfl, hheader, hbody⟩ := h
  refine ⟨body ++ trailer s ++ rest, ?_, fun left => readBody_append hbody left rest⟩
  rw [List.append_assoc, hheader]

theorem magic_prefix : magic <+: m := by
  obtain ⟨body, hskip, -⟩ := h.skip []
  rw [List.append_nil] at hskip
  exact magic_prefix_of_skip hskip

theorem two_le_length : 2 ≤ m.length := h.magic_prefix.length_le

end IsMember

variable {members parts : List Bytes}

/-- **Members are read one after the other.** -/
theorem membersFrom_members (left : List Nat) (h : List.Forall₂ IsMember members parts)
    {fuel : Nat} (hfuel : members.length < fuel) (out : Array UInt8) :
    membersFrom left fuel out members.flatten = { bytes := out.toList ++ parts.flatten } := by
  induction h generalizing fuel out with
  | nil =>
    obtain ⟨fuel, rfl⟩ := Nat.exists_eq_succ_of_ne_zero (Nat.ne_of_gt hfuel)
    rw [membersFrom]
    simp
  | @cons m part members parts hm _ ih =>
    obtain ⟨fuel, rfl⟩ := Nat.exists_eq_succ_of_ne_zero (Nat.ne_of_gt (Nat.zero_lt_of_lt hfuel))
    obtain ⟨body, hskip, hread⟩ := hm.skip members.flatten
    have hne : (m ++ members.flatten).isEmpty = false := by
      have hlen := hm.two_le_length
      rw [List.isEmpty_eq_false_iff, ne_eq, List.append_eq_nil_iff, not_and]
      rintro rfl
      contradiction
    rw [List.flatten_cons, membersFrom, hne, if_neg Bool.false_ne_true, hskip]
    simp only [hread]
    rw [ih (Nat.lt_of_succ_lt_succ hfuel)]
    simp

theorem take_headD {α : Type} {n : Nat} {chunks : List (List α)}
    (hfirst : n ≤ (chunks.headD []).length) :
    (chunks.headD []).take n = chunks.flatten.take n := by
  cases chunks with
  | nil => rfl
  | cons first rest =>
    rw [List.headD_cons] at hfirst ⊢
    rw [List.flatten_cons, List.take_append_of_le_length hfirst]

/-- **Members are decompressed** whatever the reads are that they arrive in, if the first read gets
the two bytes with which a member starts. -/
theorem openInput_members (h : List.Forall₂ IsMember members parts) {chunks : List Bytes}
    (hchunks : chunks.flatten = members.flatten) (hfirst : 2 ≤ (chunks.headD []).length) :
    openInput chunks = { bytes := parts.flatten } := by
  have hhead := take_headD hfirst
  rw [hchunks] at hhead
  have hfuel := Nat.lt_succ_of_le (length_le_length_flatten fun m hm =>
    let ⟨_, _, hm⟩ := exists_of_forall₂ h hm
    List.ne_nil_of_length_pos (Nat.zero_lt_of_lt hm.two_le_length))
  cases h with
  | nil =>
    have hlen := congrArg List.length hhead
    rw [List.length_take, min_eq_left hfirst] at hlen
    contradiction
  | @cons m part members parts hm hms =>
    have hmagic : (chunks.headD []).take 2 = magic := by
      obtain ⟨rest, hrest⟩ := hm.magic_prefix
      rw [hhead, List.flatten_cons, ← hrest]
      rfl
    obtain ⟨body, hskip, -⟩ := hm.skip members.flatten
    rw [← List.flatten_cons] at hskip
    rw [openInput, if_pos hmagic, decompressChunks, hchunks, hskip]
    exact membersFrom_members _ (.cons hm hms) hfuel #[]

theorem forall₂_isMember_compress (parts : List Bytes) :
    List.Forall₂ IsMember (parts.map compress) parts := by
  rw [List.forall₂_map_left_iff, List.forall₂_same]
  exact fun s _ => isMember_compress s

/-- **What was compressed part by part is read as a whole.** -/
theorem openInput_compress (parts : List Bytes) :
    openInput [(parts.map compress).flatten] = { bytes := parts.flatten } := by
  cases parts with
  | nil => rfl
  | cons part parts =>
    have hmembers := forall₂_isMember_compress (part :: parts)
    refine openInput_members hmembers List.flatten_singleton ?_
    have hlen := (isMember_compress part).two_le_length
    rw [List.headD_cons, List.map_cons, List.flatten_cons, List.length_append]
    omega

end Gzip

end Coprocess
