import Coprocess.Proofs.Gzip.Members
import Coprocess.Proofs.Record.Reading

/-!
# Compressed input

An input of members is read as the data that are in them, and any other input as it is.

* `Gzip.openInput_plain`: an input that does not start as a member does;
* **`Gzip.openInput_transparent`**: both kinds of input, and the records that are read from them;
* `Gzip.openInput_at_once`: an input that arrives in one piece, such as a file, asks for no more.
-/

namespace Coprocess.Gzip

theorem openInput_plain {chunks : List Bytes} (h : ¬ magic <+: chunks.flatten) :
    openInput chunks = { bytes := chunks.flatten } := by
  have hfirst : (chunks.headD []).take 2 ≠ magic := by
    intro hmagic
    apply h
    have htwo : 2 ≤ (chunks.headD []).length := by
      have hlen := congrArg List.length hmagic
      rw [List.length_take, show magic.length = 2 from rfl] at hlen
      omega
    rw [← hmagic, take_headD htwo]
    exact List.take_prefix 2 chunks.flatten
  rw [openInput, if_neg hfirst]

/-- **Compression is transparent.** Members one after the other, some of them perhaps empty, are
read as their data one after the other: with either framing the records, the end and the errors are
those of the data. What does not start as a member does is not changed. That the first read gets two
bytes is a condition on input that trickles in: see `openInput_at_once`. -/
theorem openInput_transparent (chunks : List Bytes) :
    (∀ parts : List Bytes, chunks.flatten = (parts.map compress).flatten →
      2 ≤ (chunks.headD []).length →
      openInput chunks = { bytes := parts.flatten } ∧
      ∀ framing count n, RecordReader.reads n ⟨openInput chunks, framing, count⟩ =
        RecordReader.reads n ⟨{ bytes := parts.flatten }, framing, count⟩) ∧
    (¬ magic <+: chunks.flatten → openInput chunks = { bytes := chunks.flatten }) := by
  refine ⟨fun parts hchunks hfirst => ?_, openInput_plain⟩
  have hopen := openInput_members (forall₂_isMember_compress parts) hchunks hfirst
  refine ⟨hopen, fun framing count n => ?_⟩
  rw [hopen]

/-- A line that begins in one member and ends in another, and a member without data. -/
theorem openInput_transparent_straddling :
    let parts : List Bytes := [[1, lf, 2], [], [3, lf, 4]]
    let s := (parts.map compress).flatten
    let plain : List Bytes := [[0x1F], [lf, 0x8B]]
    ([s.take 2, s.drop 2].flatten = s ∧ 2 ≤ ([s.take 2, s.drop 2].headD []).length ∧
      (RecordReader.reads 4 ⟨openInput [s.take 2, s.drop 2], .lines, 0⟩).1 =
        [.record [1, lf], .record [2, 3, lf], .record [4, lf], .ended]) ∧
    ¬ magic <+: plain.flatten ∧ openInput plain = { bytes := plain.flatten } := by
  intro parts s plain
  have hparts : [s.take 2, s.drop 2].flatten = s := by simp
  have hfirst : 2 ≤ ([s.take 2, s.drop 2].headD []).length := Nat.le_refl 2
  have hplain : ¬ magic <+: plain.flatten := by decide +kernel
  obtain ⟨-, hreads⟩ := (openInput_transparent [s.take 2, s.drop 2]).1 parts hparts hfirst
  refine ⟨⟨hparts, hfirst, ?_⟩, hplain, (openInput_transparent plain).2 hplain⟩
  rw [hreads]
  rfl

/-- **Input that arrives at once is read as it is meant**, without a condition: a member is longer
than two bytes, and an input without members is empty. -/
theorem openInput_at_once (input : Bytes) :
    (∀ parts : List Bytes, input = (parts.map compress).flatten →
      openInput [input] = { bytes := parts.flatten }) ∧
    (¬ magic <+: input → openInput [input] = { bytes := input }) := by
  constructor
  · rintro parts rfl
    exact openInput_compress parts
  · intro h
    have hplain : ¬ magic <+: [input].flatten := by rwa [List.flatten_singleton]
    rw [openInput_plain hplain, List.flatten_singleton]

end Coprocess.Gzip
