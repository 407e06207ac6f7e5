import Coprocess.Proofs.Gzip.Transparency
import Coprocess.Proofs.Record.Refills

/-!
# Input that arrives in pieces

How the reads of an input divide it does not matter, but for two things: whether the first read gets
the two bytes with which a member starts, and how much of corrupt data was decompressed in the step
that finds the fault, since this is lost.

* `Supply.broken`: bytes after which every read fails; `Supply.cutLine_broken`,
  `Supply.take_broken`;
* `Record.Steady`, `Record.readWarc_steady`, `Record.readLine_steady`: what is read does not depend
  on the bytes that follow it;
* `RecordReader.BreaksOff`, **`RecordReader.reads_broken`**: records of a supply that fails earlier;
* **`Gzip.membersFrom_cases`**: what is decompressed in whatever steps;
* **`Gzip.openInput_rechunked`**: the records of an input that arrives in other pieces, and is then
  read through a buffer (`Buffered`).
-/

namespace Coprocess

/-! ## Supplies that break off -/

namespace Supply

/-- Some bytes, after which every read fails with `e`. -/
def broken (e : IoError) (s : Bytes) : Supply := ⟨s, none, some e⟩

@[simp] theorem bytes_broken (e : IoError) (s : Bytes) : (broken e s).bytes = s := rfl

theorem cutLine_broken (e : IoError) (s : Bytes) :
    (∃ line rest, line ≠ [] ∧ s = line ++ rest ∧
        ∀ more, (broken e (s ++ more)).cutLine = (.ok line, broken e (rest ++ more))) ∨
      (broken e s).cutLine = (.error e, broken e []) := by
  have hrest (l : Bytes) (hl : lf ∉ l) : (broken e l).cutLine = (.error e, broken e []) := by
    have hlast : ¬ l.getLast? = some lf := fun he => hl (List.mem_of_getLast? he)
    simp only [broken, cutLine, cutLine_rest hl]
    rw [if_neg hlast]
    rfl
  induction s using line_induction with
  | nil => exact .inr (hrest [] List.not_mem_nil)
  | rest l hl => exact .inr (hrest l hl)
  | line l s hl =>
    refine .inl ⟨l ++ [lf], s, by simp, by simp, fun more => ?_⟩
    have hcut := cutLine_line hl (s ++ more)
    simp only [broken, cutLine, List.append_assoc, List.cons_append, hcut]
    rw [if_pos (List.getLast?_concat ..)]

theorem take_broken (e : IoError) (n : Nat) (s : Bytes) :
    (∃ part rest, ∀ more,
        (broken e (s ++ more)).take n = (.ok (some part), broken e (rest ++ more))) ∨
      (broken e s).take n = (.error e, broken e []) := by
  by_cases hlen : n ≤ s.length
  · refine .inl ⟨s.take n, s.drop n, fun more => ?_⟩
    have htake : (s ++ more).take n = s.take n := List.take_append_of_le_length hlen
    have hdrop : (s ++ more).drop n = s.drop n ++ more := List.drop_append_of_le_length hlen
    simp only [broken, take, htake, hdrop]
    rw [if_pos (List.length_take_of_le hlen)]
  · refine .inr ?_
    have hshort : (s.take n).length ≠ n := by
      rw [List.length_take]
      omega
    exact if_neg hshort

end Supply

namespace Record

open Supply (broken)

/-- What is read of a supply is read whatever follows it, unless the supply fails before. -/
def Steady (e : IoError) (read : Supply → RecordRead × Supply) : Prop :=
  ∀ s, (∃ x rest, ∀ more, read (broken e (s ++ more)) = (x, broken e (rest ++ more))) ∨
    read (broken e s) = (.failed (.io e), broken e [])

theorem readHeaders_line_uniform {raw : Bytes} (hne : raw ≠ []) (unit : Nat) (head : Array UInt8)
    (found : Option Nat) :
    (∃ n, ∀ s t fuel, s.cutLine = (.ok raw, t) →
        readHeaders unit (fuel + 1) head found s = .complete (head ++ raw) n t) ∨
      (∃ failure, ∀ s t fuel, s.cutLine = (.ok raw, t) →
        readHeaders unit (fuel + 1) head found s = .failed failure t) ∨
      ∃ found', ∀ s t fuel, s.cutLine = (.ok raw, t) →
        readHeaders unit (fuel + 1) head found s =
          readHeaders unit fuel (head ++ raw) found' t := by
  by_cases htext : headerLine raw = []
  · cases found with
    | none =>
      refine .inr (.inl ⟨.malformed unit .noLength, fun s t fuel hc => ?_⟩)
      rw [readHeaders_line hc hne, if_pos htext]
    | some n =>
      refine .inl ⟨n, fun s t fuel hc => ?_⟩
      rw [readHeaders_line hc hne, if_pos htext]
  · cases hv : lengthValue? (headerLine raw) with
    | none =>
      refine .inr (.inr ⟨found, fun s t fuel hc => ?_⟩)
      rw [readHeaders_line hc hne, if_neg htext, hv]
    | some value =>
      cases found with
      | some m =>
        refine .inr (.inl ⟨.malformed unit .twoLengths, fun s t fuel hc => ?_⟩)
        rw [readHeaders_line hc hne, if_neg htext, hv]
        rfl
      | none =>
        cases hm : parseLength value with
        | none =>
          refine .inr (.inl ⟨.malformed unit (.badLength (headerLine raw)), fun s t fuel hc => ?_⟩)
          rw [readHeaders_line hc hne, if_neg htext, hv]
          simp [hm]
        | some m =>
          refine .inr (.inr ⟨some m, fun s t fuel hc => ?_⟩)
          rw [readHeaders_line hc hne, if_neg htext, hv]
          simp [hm]

theorem readHeaders_broken (e : IoError) (unit : Nat) {fuel : Nat} {s : Bytes}
    (hfuel : s.length < fuel) (head : Array UInt8) (found : Option Nat) :
    (∃ head' n rest, ∀ more fuel', (s ++ more).length < fuel' →
        readHeaders unit fuel' head found (broken e (s ++ more)) =
          .complete head' n (broken e (rest ++ more))) ∨
      (∃ failure rest, ∀ more fuel', (s ++ more).length < fuel' →
        readHeaders unit fuel' head found (broken e (s ++ more)) =
          .failed failure (broken e (rest ++ more))) ∨
      readHeaders unit fuel head found (broken e s) = .failed (.io e) (broken e []) := by
  induction fuel generalizing s head found with
  | zero => exact absurd hfuel (Nat.not_lt_zero _)
  | succ fuel ih =>
    rcases Supply.cutLine_broken e s with ⟨raw, rest, hne, rfl, hcut⟩ | hcut
    · have hpos := List.length_pos_iff.mpr hne
      have hone {more : Bytes} {fuel' : Nat} (h : (raw ++ rest ++ more).length < fuel') :
          ∃ fuel'', fuel' = fuel'' + 1 ∧ (rest ++ more).length < fuel'' := by
        simp only [List.length_append] at h ⊢
        exact ⟨fuel' - 1, by omega, by omega⟩
      rcases readHeaders_line_uniform hne unit head found with ⟨n, h⟩ | ⟨failure, h⟩ | ⟨found', h⟩
      · refine .inl ⟨head ++ raw, n, rest, fun more fuel' hfuel' => ?_⟩
        obtain ⟨fuel', rfl, -⟩ := hone hfuel'
        exact h _ _ _ (hcut more)
      · refine .inr (.inl ⟨failure, rest, fun more fuel' hfuel' => ?_⟩)
        obtain ⟨fuel', rfl, -⟩ := hone hfuel'
        exact h _ _ _ (hcut more)
      · have hrest : rest.length < fuel := by
          rw [List.length_append] at hfuel
          omega
        rcases ih hrest (head ++ raw) found' with ⟨head', n, rest', hi⟩ | ⟨failure, rest', hi⟩ | hi
        · refine .inl ⟨head', n, rest', fun more fuel' hfuel' => ?_⟩
          obtain ⟨fuel', rfl, hlt⟩ := hone hfuel'
          rw [h _ _ _ (hcut more), hi more fuel' hlt]
        · refine .inr (.inl ⟨failure, rest', fun more fuel' hfuel' => ?_⟩)
          obtain ⟨fuel', rfl, hlt⟩ := hone hfuel'
          rw [h _ _ _ (hcut more), hi more fuel' hlt]
        · have hnil := hcut []
          rw [List.append_nil, List.append_nil] at hnil
          exact .inr (.inr ((h _ _ _ hnil).trans hi))
    · refine .inr (.inr ?_)
      rw [readHeaders, hcut]

theorem readContent_steady {e : IoError} (he : endsEarly e = false) (unit : Nat)
    (head : Array UInt8) (n : Nat) : Steady e (readContent unit head n) := by
  intro s
  unfold readContent
  by_cases hsize : sizeLimit < head.size + n + recordEnd.length
  · exact .inl ⟨.overflow, s, fun more => if_pos hsize⟩
  · simp only [if_neg hsize]
    rcases Supply.take_broken e (n + recordEnd.length) s with ⟨content, rest, h⟩ | h
    · by_cases hend : content.drop n = recordEnd
      · refine .inl ⟨.record (head ++ content).toList, rest, fun more => ?_⟩
        simp only [h, if_pos hend]
      · refine .inl ⟨.failed (.malformed unit .missingRecordEnd), rest, fun more => ?_⟩
        simp only [h, if_neg hend]
    · refine .inr ?_
      simp only [h, he]
      rfl

/-- **A WARC record is read whatever follows it**, unless the supply fails before. -/
theorem readWarc_steady {e : IoError} (he : endsEarly e = false) (unit : Nat) :
    Steady e (readWarc unit) := by
  intro s
  rcases Supply.cutLine_broken e s with ⟨raw, rest, hne, -, hcut⟩ | hcut
  · have hline (more : Bytes) := readWarc_line (hcut more) hne unit
    have hnil := hcut []
    rw [List.append_nil, List.append_nil] at hnil
    by_cases hv : headerLine raw ≠ versionLine
    · exact .inl ⟨_, rest, fun more => by rw [hline, if_pos hv]⟩
    · rcases readHeaders_broken e unit (Nat.lt_add_one rest.length) raw.toArray none with
        ⟨head, n, rest', h⟩ | ⟨failure, rest', h⟩ | h
      · have hbroken (more : Bytes) : readWarc unit (broken e (s ++ more)) =
            readContent unit head n (broken e (rest' ++ more)) := by
          rw [hline, if_neg hv, Supply.bytes_broken, h more _ (Nat.lt_add_one _)]
        rcases readContent_steady he unit head n rest' with ⟨x, rest'', hc⟩ | hc
        · exact .inl ⟨x, rest'', fun more => (hbroken more).trans (hc more)⟩
        · have hfirst := hbroken []
          rw [List.append_nil, List.append_nil] at hfirst
          exact .inr (hfirst.trans hc)
      · refine .inl ⟨.failed failure, rest', fun more => ?_⟩
        rw [hline, if_neg hv, Supply.bytes_broken, h more _ (Nat.lt_add_one _)]
      · refine .inr ?_
        rw [readWarc_line hnil hne, if_neg hv, Supply.bytes_broken, h]
  · exact .inr (by rw [readWarc, hcut])

/-- **A line is read whatever follows it**, unless the supply fails before. -/
theorem readLine_steady (e : IoError) : Steady e readLine := by
  intro s
  rcases Supply.cutLine_broken e s with ⟨line, rest, hne, -, hcut⟩ | hcut
  · obtain ⟨b, line, rfl⟩ := List.exists_cons_of_ne_nil hne
    exact .inl ⟨_, rest, fun more => by rw [readLine, hcut]⟩
  · exact .inr (by rw [readLine, hcut])

end Record

namespace RecordReader

open Supply (broken)

variable {e : IoError}

/-- Records that are read up to a place, where an error is met that stays. -/
def BreaksOff (e : IoError) (short long : List RecordRead) : Prop :=
  ∃ k, short = long.take k ++ List.replicate (long.length - k) (.failed (.io e))

theorem length_reads (n : Nat) (r : RecordReader) : (reads n r).1.length = n := by
  induction n generalizing r with
  | zero => rfl
  | succ n ih => rw [reads, List.length_cons, ih]

theorem next_broken (he : Record.endsEarly e = false) (framing : Framing) (count : Nat)
    (s : Bytes) :
    (∃ x rest count', ∀ more, next ⟨broken e (s ++ more), framing, count⟩ =
        (x, ⟨broken e (rest ++ more), framing, count'⟩)) ∨
      next ⟨broken e s, framing, count⟩ = (.failed (.io e), ⟨broken e [], framing, count⟩) := by
  cases framing with
  | warc =>
    rcases Record.readWarc_steady he (count + 1) s with ⟨x, rest, h⟩ | h
    · exact .inl ⟨x, rest, _, fun more => by simp only [next, h]; rfl⟩
    · exact .inr (by simp only [next, h])
  | lines =>
    rcases Record.readLine_steady e s with ⟨x, rest, h⟩ | h
    · exact .inl ⟨x, rest, _, fun more => by simp only [next, h]; rfl⟩
    · exact .inr (by simp only [next, h])

theorem reads_broken_nil (e : IoError) (framing : Framing) (count n : Nat) :
    (reads n ⟨broken e [], framing, count⟩).1 = List.replicate n (.failed (.io e)) := by
  induction n with
  | zero => rfl
  | succ n ih =>
    have hnext : next ⟨broken e [], framing, count⟩ =
        (.failed (.io e), ⟨broken e [], framing, count⟩) := by
      cases framing <;> rfl
    rw [reads, hnext, ih, List.replicate_succ]

/-- **Records of a supply that fails earlier** are those of the other up to a place. -/
theorem reads_broken (he : Record.endsEarly e = false) (framing : Framing) (count n : Nat)
    {s t : Bytes} (h : s <+: t) :
    BreaksOff e (reads n ⟨broken e s, framing, count⟩).1
      (reads n ⟨broken e t, framing, count⟩).1 := by
  obtain ⟨more, rfl⟩ := h
  induction n generalizing s count with
  | zero => exact ⟨0, rfl⟩
  | succ n ih =>
    rcases next_broken he framing count s with ⟨x, rest, count', h⟩ | h
    · have hnil := h []
      rw [List.append_nil, List.append_nil] at hnil
      obtain ⟨k, hk⟩ := ih count'
      rw [reads, reads, hnil, h more]
      exact ⟨k + 1, by simpa using hk⟩
    · refine ⟨0, ?_⟩
      rw [length_reads, reads, h, reads_broken_nil]
      rfl

end RecordReader

/-! ## Steps of decompression -/

namespace Gzip

open Supply (broken)

/-- Of a member the reads of the input tell at most how much of corrupt data is lost. -/
theorem readBody_cases (s : Bytes) :
    (∃ r, ∀ left, readBody left s = r) ∨
      ∃ out : Array UInt8, ∀ left, ∃ k,
        readBody left s = (out.extract 0 k, .inr (broken .corruptData [])) := by
  obtain ⟨out, rest, h⟩ : ∃ out rest, inflate s = (out, rest) := ⟨_, _, rfl⟩
  unfold readBody
  rw [h]
  match rest with
  | .error .truncated => exact .inl ⟨_, fun _ => rfl⟩
  | .error .corrupt => exact .inr ⟨out, fun _ => ⟨_, rfl⟩⟩
  | .ok _ => exact .inl ⟨_, fun _ => rfl⟩

section

variable {s body : Bytes} (hs : ¬ s.isEmpty = true) (hskip : Header.skip s = .ok body)
  {left : List Nat} {data : Array UInt8} (fuel : Nat) (out : Array UInt8)
include hs hskip

theorem membersFrom_last {ending : Supply} (h : readBody left body = (data, .inr ending)) :
    membersFrom left (fuel + 1) out s = { ending with bytes := (out ++ data).toList } := by
  simp only [membersFrom, if_neg hs, hskip, h]

theorem membersFrom_first {rest : Bytes} (h : readBody left body = (data, .inl rest)) :
    membersFrom left (fuel + 1) out s = membersFrom left fuel (out ++ data) rest := by
  simp only [membersFrom, if_neg hs, hskip, h]

end

/-- **Of all members the reads of the input tell at most how much of corrupt data is lost.** -/
theorem membersFrom_cases (fuel : Nat) (out : Array UInt8) (s : Bytes) :
    (∃ t, ∀ left, membersFrom left fuel out s = t) ∨
      ∃ all : Bytes, ∀ left, ∃ k, membersFrom left fuel out s =
        broken .corruptData (all.take k) := by
  induction fuel generalizing out s with
  | zero => exact .inl ⟨_, fun _ => rfl⟩
  | succ fuel ih =>
    by_cases hs : s.isEmpty = true
    · exact .inl ⟨_, fun left => by rw [membersFrom, if_pos hs]⟩
    cases hskip : Header.skip s with
    | error e => exact .inl ⟨_, fun left => by rw [membersFrom, if_neg hs, hskip]⟩
    | ok body =>
      rcases readBody_cases body with ⟨⟨data, ending⟩, h⟩ | ⟨data, h⟩
      · cases ending with
        | inr ending =>
          exact .inl ⟨_, fun left => membersFrom_last hs hskip fuel out (h left)⟩
        | inl rest =>
          simp only [membersFrom_first hs hskip fuel out (h _)]
          exact ih (out ++ data) rest
      · refine .inr ⟨out.toList ++ data.toList, fun left => ?_⟩
        obtain ⟨k, hk⟩ := h left
        have htake : (out ++ data.extract 0 k).toList =
            (out.toList ++ data.toList).take (out.toList.length + k) := by
          rw [List.take_length_add_append]
          simp
        refine ⟨out.toList.length + k, ?_⟩
        rw [membersFrom_last hs hskip fuel out hk, ← htake]
        rfl

theorem decompressChunks_cases (s : Bytes) :
    (∃ t, ∀ chunks, chunks.flatten = s → decompressChunks chunks = t) ∨
      ∃ all : Bytes, ∀ chunks, chunks.flatten = s →
        ∃ k, decompressChunks chunks = broken .corruptData (all.take k) := by
  cases hskip : Header.skip s with
  | error e =>
    refine .inl ⟨⟨[], some e, none⟩, fun chunks hflat => ?_⟩
    rw [decompressChunks, hflat, hskip]
  | ok body =>
    have hmembers {chunks : List Bytes} (hflat : chunks.flatten = s) :
        decompressChunks chunks =
          membersFrom (leftAfterReads chunks) (s.length + 1) #[] s := by
      rw [decompressChunks, hflat, hskip]
    rcases membersFrom_cases (s.length + 1) #[] s with ⟨t, h⟩ | ⟨all, h⟩
    · exact .inl ⟨t, fun chunks hflat => (hmembers hflat).trans (h _)⟩
    · refine .inr ⟨all, fun chunks hflat => ?_⟩
      rw [hmembers hflat]
      exact h _

/-! ## Inputs -/

/-- If an input starts as a member does, its first read tells so. -/
def FirstTells (chunks : List Bytes) : Prop :=
  magic <+: chunks.flatten → magic.length ≤ (chunks.headD []).length

/-- An input whose first read does not tell that a member starts is not decompressed. -/
theorem openInput_untold {chunks : List Bytes} (h : ¬ FirstTells chunks) :
    openInput chunks = { bytes := chunks.flatten } := by
  have hshort : (chunks.headD []).length < magic.length := by
    by_contra hlong
    exact h fun _ => Nat.le_of_not_lt hlong
  have hfirst : (chunks.headD []).take 2 ≠ magic := by
    intro hmagic
    have hlen := congrArg List.length hmagic
    rw [List.length_take, show magic.length = 2 from rfl] at hlen
    rw [show magic.length = 2 from rfl] at hshort
    omega
  rw [openInput, if_neg hfirst]

theorem openInput_told {chunks : List Bytes} (h : FirstTells chunks) :
    openInput chunks =
      if magic <+: chunks.flatten then decompressChunks chunks
      else { bytes := chunks.flatten } := by
  by_cases hmagic : magic <+: chunks.flatten
  · have hfirst : (chunks.headD []).take 2 = magic :=
      (take_headD (h hmagic)).trans (List.prefix_iff_eq_take.mp hmagic).symm
    rw [openInput, if_pos hfirst, if_pos hmagic]
  · rw [openInput_plain hmagic, if_neg hmagic]

open RecordReader (BreaksOff)

deriving instance DecidableEq for Supply

/-- **The pieces in which an input arrives do not matter** if the first tells whether a member
starts, and neither do those in which it is buffered after it was opened: the records, the end and
the errors are the same, unless there are corrupt data. These are reported in any case, perhaps some
records earlier. -/
theorem openInput_rechunked {chunks chunks' : List Bytes} (hflat : chunks.flatten = chunks'.flatten)
    (htells : FirstTells chunks) (htells' : FirstTells chunks') {b b' : Buffered}
    (hb : b.supply = openInput chunks) (hb' : b'.supply = openInput chunks') :
    (∀ framing n count, b.reads framing n count = b'.reads framing n count) ∨
      (openInput chunks).lasting = some .corruptData ∧
        (openInput chunks').lasting = some .corruptData ∧
        ∀ framing n count,
          BreaksOff .corruptData (b.reads framing n count) (b'.reads framing n count) ∨
            BreaksOff .corruptData (b'.reads framing n count) (b.reads framing n count) := by
  simp only [Buffered.reads_eq, hb, hb']
  rw [openInput_told htells, openInput_told htells', hflat]
  by_cases hmagic : magic <+: chunks'.flatten
  · rw [if_pos hmagic, if_pos hmagic]
    rcases decompressChunks_cases chunks'.flatten with ⟨t, h⟩ | ⟨all, h⟩
    · rw [h chunks hflat, h chunks' rfl]
      exact .inl fun _ _ _ => rfl
    · obtain ⟨k, hk⟩ := h chunks hflat
      obtain ⟨k', hk'⟩ := h chunks' rfl
      rw [hk, hk']
      refine .inr ⟨rfl, rfl, fun framing n count => ?_⟩
      rcases Nat.le_total k k' with hle | hle
      · exact .inl (RecordReader.reads_broken rfl framing count n (List.take_prefix_take_left hle))
      · exact .inr (RecordReader.reads_broken rfl framing count n (List.take_prefix_take_left hle))
  · rw [if_neg hmagic, if_neg hmagic]
    exact .inl fun _ _ _ => rfl

/-- Corrupt data after two lines: the lines are read if the fault arrives by itself. -/
theorem openInput_rechunked_corrupt :
    let start := plainHeader ++ [0, 4, 0, 251, 255, 97, lf, 98, lf]
    let late : Buffered := ⟨[97], [⟨[lf, 98, lf], by decide⟩], none, some .corruptData⟩
    let early : Buffered := ⟨[], [], none, some .corruptData⟩
    late.supply = openInput [start, [7]] ∧ early.supply = openInput [start ++ [7]] ∧
      late.reads .lines 3 0 =
        [.record [97, lf], .record [98, lf], .failed (.io .corruptData)] ∧
      early.reads .lines 3 0 = List.replicate 3 (.failed (.io .corruptData)) ∧
      (BreaksOff .corruptData (late.reads .lines 3 0) (early.reads .lines 3 0) ∨
        BreaksOff .corruptData (early.reads .lines 3 0) (late.reads .lines 3 0)) := by
  intro start late early
  have hflat : [start, [7]].flatten = [start ++ [7]].flatten := rfl
  have htells : FirstTells [start, [7]] := fun _ => by decide +kernel
  have htells' : FirstTells [start ++ [7]] := fun _ => by decide +kernel
  have hlate : late.supply = openInput [start, [7]] := by decide +kernel
  have hearly : early.supply = openInput [start ++ [7]] := by decide +kernel
  have hlines : late.reads .lines 3 0 =
      [.record [97, lf], .record [98, lf], .failed (.io .corruptData)] := by
    rw [Buffered.reads_eq]
    rfl
  have hnone : early.reads .lines 3 0 = List.replicate 3 (.failed (.io .corruptData)) := by
    rw [Buffered.reads_eq]
    rfl
  refine ⟨hlate, hearly, hlines, hnone, ?_⟩
  rcases openInput_rechunked hflat htells htells' hlate hearly with hsame | ⟨-, -, h⟩
  · have hone := hsame .lines 3 0
    rw [hlines, hnone] at hone
    cases hone
  · exact h .lines 3 0

/-- A member for one line whose first byte arrives by itself is not decompressed. -/
theorem openInput_first_byte :
    ¬ ∀ (chunks chunks' : List Bytes) (b b' : Buffered) (framing : Framing) (n : Nat),
      (∀ c ∈ chunks, c ≠ []) → (∀ c ∈ chunks', c ≠ []) → chunks.flatten = chunks'.flatten →
        b.supply = openInput chunks → b'.supply = openInput chunks' →
          b.reads framing n 0 = b'.reads framing n 0 := by
  intro h
  let rest : Bytes := [0x8B, 8, 0, 0, 0, 0, 0, 0, 0xFF, 1, 2, 0, 253, 255, 97, lf,
    7, 161, 234, 221, 2, 0, 0, 0]
  have huntold : ¬ FirstTells [[0x1F], rest] := fun htells =>
    absurd (htells (by decide +kernel)) (by decide)
  have hraw : Buffered.supply { buffer := [0x1F], chunks := [⟨rest, by decide⟩] } =
      openInput [[0x1F], rest] := (openInput_untold huntold).symm
  have hline : Buffered.supply { buffer := [97, lf] } = openInput [0x1F :: rest] := by
    decide +kernel
  have hsame := h [[0x1F], rest] [0x1F :: rest] _ _ .lines 1 (by decide) (by decide) rfl hraw hline
  rw [Buffered.reads_eq, Buffered.reads_eq] at hsame
  cases hsame

end Gzip

end Coprocess
