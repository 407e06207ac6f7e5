import Coprocess.Proofs.Record.Division

/-!
# Announced lengths

A record announces the length of its content, and room is made for it before any of it is read.

* `Record.Opens.length_lt`: what is announced is less than 2⁶⁴;
* `Record.readContent_short`: content that can be held and is missing;
* `Record.Oversized`: a supply announces more than can be held;
* **`RecordReader.next_overflow_iff`**: a read overflows exactly there, whatever follows it;
* **`RecordReader.reads_announced`**: what any number of reads comes to.
-/

namespace Coprocess

namespace Record

variable {s rest : Supply} {head : Bytes} {n : Nat}

/-! ## What is announced -/

theorem parseLength_lt_bound {value : Bytes} (h : parseLength value = some n) : n < 2 ^ 64 := by
  unfold parseLength at h
  split at h
  · exact Decimal.word?_lt_bound h
  · cases h

theorem Opens.length_lt (h : Opens s head n rest) : n < 2 ^ 64 := by
  obtain ⟨-, opening, blank, -, ho, -⟩ := h
  obtain ⟨value, hn, -⟩ := ho.sublist
  exact parseLength_lt_bound hn

/-- The next record announces more, with its opening and what closes it, than can be held. -/
def Oversized (s : Supply) : Prop :=
  ∃ head n rest, Opens s head n rest ∧ 2 ^ 63 ≤ head.length + n + recordEnd.length

/-! ## Content that is missing -/

theorem readContent_short {head : Array UInt8} (hsize : head.size + n + recordEnd.length < 2 ^ 63)
    (hshort : rest.bytes.length < n + recordEnd.length) (unit : Nat) :
    ((∀ e, rest.exhaust.1 = .error e → endsEarly e = true) →
        (readContent unit head n rest).1 = .failed (.malformed unit (.endInContent n))) ∧
      ∀ e, rest.exhaust.1 = .error e → endsEarly e = false →
        (readContent unit head n rest).1 = .failed (.io e) := by
  rw [readContent, if_neg fun h => Nat.not_lt_of_le (sizeLimit_lt_iff.mp h) hsize]
  rcases rest.take_cases (n + recordEnd.length) with
    ⟨part, t, hlen, hs, -⟩ | ⟨-, hs, ht⟩ | ⟨e, t, -, -, he, ht⟩
  · rw [hs, Supply.prepend_bytes, List.length_append] at hshort
    omega
  · rw [ht]
    refine ⟨fun _ => rfl, fun e he => ?_⟩
    rw [hs] at he
    cases he
  · rw [ht, he]
    constructor
    · intro hearly
      exact if_pos (hearly e rfl)
    · intro e' he' hlate
      cases he'
      exact if_neg (Bool.eq_false_iff.mp hlate)

/-! ## Reading a record -/

/-- **A read overflows exactly where too much is announced**, whatever follows the opening. -/
theorem readWarc_overflow_iff (unit : Nat) :
    (readWarc unit s).1 = .overflow ↔ Oversized s := by
  constructor
  · intro h
    rcases readWarc_outcome unit s with
      ⟨record, rest, hr, -⟩ | ⟨-, hr⟩ | ⟨-, cause, t, hr⟩ | ⟨e, t, -, hr⟩ |
      ⟨head, n, rest, ho, hsize, -⟩
    case inr.inr.inr.inr => exact ⟨head, n, rest, ho, hsize⟩
    all_goals
      rw [hr] at h
      cases h
  · rintro ⟨head, n, rest, ho, hsize⟩
    obtain ⟨a, ha, hread⟩ := readWarc_opens ho unit
    have hsize : 2 ^ 63 ≤ a.size + n + recordEnd.length := by
      rwa [← Array.length_toList, ha]
    rw [hread, readContent_overflow hsize]

theorem readLine_ne_overflow : (readLine s).1 ≠ .overflow := by
  rcases readLine_cases s with ⟨l, t, -, -, hr⟩ | ⟨l, -, -, -, hr⟩ | ⟨-, hr⟩ | ⟨e, t, -, hr⟩ <;>
    rw [hr] <;> nofun

end Record

namespace RecordReader

open Record (Opens Oversized recordEnd endsEarly)

/-! ## Reading any number of times -/

theorem next_framing (r : RecordReader) : r.next.2.framing = r.framing := rfl

theorem reads_framing (n : Nat) (r : RecordReader) : (reads n r).2.framing = r.framing := by
  induction n generalizing r with
  | zero => rfl
  | succ n ih => rw [reads, ih, next_framing]

theorem getElem?_reads {k n : Nat} (hk : k < n) (r : RecordReader) :
    (reads n r).1[k]? = some (reads k r).2.next.1 := by
  induction n generalizing k r with
  | zero => exact absurd hk (Nat.not_lt_zero k)
  | succ n ih =>
    cases k with
    | zero => rfl
    | succ k => exact ih (Nat.lt_of_succ_lt_succ hk) r.next.2

/-- **A read overflows exactly where too much is announced**, in the framing that announces. -/
theorem next_overflow_iff {r : RecordReader} :
    r.next.1 = .overflow ↔ r.framing = .warc ∧ Oversized r.supply := by
  obtain ⟨supply, framing, count⟩ := r
  cases framing with
  | warc =>
    have hread : (next ⟨supply, .warc, count⟩).1 = (Record.readWarc (count + 1) supply).1 := rfl
    rw [hread, Record.readWarc_overflow_iff]
    exact ⟨fun h => ⟨rfl, h⟩, fun h => h.2⟩
  | lines =>
    have hread : (next ⟨supply, .lines, count⟩).1 = (Record.readLine supply).1 := rfl
    rw [hread]
    exact ⟨fun h => absurd h Record.readLine_ne_overflow, fun h => nomatch h.1⟩

/-- Content that can be held and is missing is malformed input, unless the supply fails. -/
theorem next_short {r : RecordReader} {head : Bytes} {n : Nat} {rest : Supply}
    (hf : r.framing = .warc) (ho : Opens r.supply head n rest)
    (hsize : head.length + n + recordEnd.length < 2 ^ 63)
    (hshort : rest.bytes.length < n + recordEnd.length) :
    ((∀ e, rest.exhaust.1 = .error e → endsEarly e = true) →
        r.next.1 = .failed (.malformed (r.count + 1) (.endInContent n))) ∧
      ∀ e, rest.exhaust.1 = .error e → endsEarly e = false → r.next.1 = .failed (.io e) := by
  obtain ⟨supply, framing, count⟩ := r
  obtain rfl : framing = .warc := hf
  obtain ⟨a, ha, hread⟩ := Record.readWarc_opens ho (count + 1)
  have hnext : (next ⟨supply, .warc, count⟩).1 = (Record.readContent (count + 1) a n rest).1 :=
    congrArg Prod.fst hread
  rw [hnext]
  refine Record.readContent_short ?_ hshort (count + 1)
  rwa [← Array.length_toList, ha]

/-- **A length breaks the reader only if it is too large to be held.** Each of any number of reads,
of any supply and in either framing, is a record, the end or a failure, unless it meets a WARC
record that announces 2⁶³ bytes or more with its opening and what closes it; then it overflows,
whatever follows. A length that is announced is less than 2⁶⁴; if it can be held and the content is
missing, then the input is malformed, or the supply has failed. -/
theorem reads_announced (r : RecordReader) {k calls : Nat} (hk : k < calls) :
    ∃ read, (reads calls r).1[k]? = some read ∧
      (read = .overflow ↔ r.framing = .warc ∧ Oversized (reads k r).2.supply) ∧
      ∀ head n rest, r.framing = .warc → Opens (reads k r).2.supply head n rest →
        n < 2 ^ 64 ∧
          (head.length + n + recordEnd.length < 2 ^ 63 →
            rest.bytes.length < n + recordEnd.length →
            ((∀ e, rest.exhaust.1 = .error e → endsEarly e = true) →
                read = .failed (.malformed ((reads k r).2.count + 1) (.endInContent n))) ∧
              ∀ e, rest.exhaust.1 = .error e → endsEarly e = false → read = .failed (.io e)) := by
  refine ⟨(reads k r).2.next.1, getElem?_reads hk r, ?_,
    fun head n rest hf ho => ⟨ho.length_lt, ?_⟩⟩
  · rw [next_overflow_iff, reads_framing]
  · exact next_short (by rw [reads_framing, hf]) ho

/-- Three bytes of content where five are announced. -/
theorem reads_announced_short :
    let head := Bytes.ofString "WARC/1.0\nContent-Length:5\n\n"
    let r : RecordReader := ⟨{ bytes := head ++ Bytes.ofString "abc" }, .warc, 0⟩
    0 < 1 ∧ Opens r.supply head 5 { bytes := Bytes.ofString "abc" } ∧
      (reads 1 r).1[0]? = some (.failed (.malformed 1 (.endInContent 5))) := by
  intro head r
  have ho : Opens r.supply head 5 { bytes := Bytes.ofString "abc" } := by
    refine ⟨rfl, Bytes.ofString "WARC/1.0\nContent-Length:5\n", [lf], by decide +kernel, ?_,
      .inl (by decide)⟩
    refine ⟨Bytes.ofString "WARC/1.0\n", [Bytes.ofString "Content-Length:5\n"],
      [Bytes.ofString "Content-Length:5"],
      by decide +kernel, by decide +kernel, by decide +kernel, by decide +kernel, ?_⟩
    exact Record.announces_iff.mpr (by decide +kernel)
  obtain ⟨read, hread, -, h⟩ := reads_announced r (by decide : 0 < 1)
  obtain ⟨-, hmissing⟩ := h head 5 _ rfl ho
  refine ⟨by decide, ho, ?_⟩
  rw [hread, (hmissing (by decide +kernel) (by decide +kernel)).1 fun e he => nomatch he]
  rfl

/-- The largest length of a signed number, announced and not there. -/
theorem reads_oversized :
    let s := Bytes.ofString "WARC/1.0\r\nContent-Length: 9223372036854775807\r\n\r\n"
    .overflow ∈ (reads 1 ⟨{ bytes := s }, .warc, 0⟩).1 := by
  intro s
  have hover : Oversized { bytes := s } := by
    refine ⟨s, 9223372036854775807, { bytes := [] }, ⟨?_, ?_⟩, by decide +kernel⟩
    · rw [Supply.prepend, List.append_nil]
    refine ⟨Bytes.ofString "WARC/1.0\r\nContent-Length: 9223372036854775807\r\n", [cr, lf],
      by decide +kernel, ?_, .inl (by decide)⟩
    refine ⟨Bytes.ofString "WARC/1.0\r\n",
      [Bytes.ofString "Content-Length: 9223372036854775807\r\n"],
      [Bytes.ofString "Content-Length: 9223372036854775807"],
      by decide +kernel, by decide +kernel, by decide +kernel, by decide +kernel, ?_⟩
    exact Record.announces_iff.mpr (by decide +kernel)
  exact List.mem_cons.mpr (.inl (next_overflow_iff.mpr ⟨rfl, hover⟩).symm)

end RecordReader

end Coprocess
