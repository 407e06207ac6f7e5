import Coprocess.Proofs.Collector.Verdict
import Coprocess.Proofs.Source.Parcels
import Coprocess.Proofs.Text.Base64

/-!
# A child that gives back what it gets

The lines that are sent for a unit are what the unit is put together from, so that a child that
changes nothing gives back the line of the input.

* `Echoes`: a parcel whose own lines make the line again;
* `echoes_foldParcel`, `echoes_describeDocument`: wrapped lines and documents are such parcels;
* **`Source.render_echo`**: so are all parcels of a source, one after the other;
* `Trial.echo`: what a collector has written when it returns;
* **`Trial.wrapping_undone`**, **`Trial.documents_undone`**: so it is for wrapped lines and for
  documents.
-/

namespace Coprocess

open Descriptor (demands assembleAll)

/-- The unit made of the parcel's own lines is written as `line`. -/
def Echoes (format : Sink.Format) (line : Bytes) (p : Parcel) : Prop :=
  ∀ slots, Sink.render format (p.descriptor.assemble (lines p.payload) slots).1 = line ++ [lf]

/-! ## Wrapped lines -/

theorem lines_foldParcel (o : WrapOptions) {text : List Char} (ht : '\n' ∉ text) :
    lines (Source.foldParcel o text).payload =
      (wrap o text).map fun p => Utf8.encode p.text := by
  have hl : ∀ l ∈ (wrap o text).map (fun p => Utf8.encode p.text), lf ∉ l := by
    intro l hl hm
    obtain ⟨p, hp, rfl⟩ := List.mem_map.mp hl
    exact ht (mem_of_mem_wrap hp (List.mem_append_left _ (Utf8.lf_mem_encode hm)))
  rw [← lines_flatMap hl, List.flatMap_map]
  rfl

theorem flatten_zipWith_encode (pieces : List Piece) :
    (List.zipWith (· ++ ·) (pieces.map fun p => Utf8.encode p.text)
      (pieces.map fun p => Utf8.encode p.delimiter)).flatten =
      Utf8.encode (pieces.flatMap fun p => p.text ++ p.delimiter) := by
  induction pieces with
  | nil => rfl
  | cons p pieces ih =>
    simp only [List.map_cons, List.zipWith_cons_cons, List.flatten_cons, ih, List.flatMap_cons]
    simp only [Utf8.encode, List.flatMap_append]

theorem echoes_foldParcel (o : WrapOptions) {text : List Char} (ht : '\n' ∉ text) :
    Echoes .line (Utf8.encode text) (Source.foldParcel o text) := by
  intro slots
  have hz := flatten_zipWith_encode (wrap o text)
  rw [flatMap_wrap] at hz
  rw [lines_foldParcel o ht]
  exact congrArg (· ++ [lf]) hz

/-! ## Documents -/

theorem assemble_describeDocument (document : Bytes) (slots : Slots) :
    ((describeDocument document).descriptor.assemble
      (lines (describeDocument document).payload) slots).1 = document := by
  unfold describeDocument
  by_cases h : document.getLast? = some lf
  · obtain ⟨body, rfl⟩ := List.getLast?_eq_some_iff.mp h
    simp [Descriptor.assemble, intercalate_lines]
  · simp [Descriptor.assemble, intercalate_lines, h]

theorem echoes_describeDocument {line document : Bytes} (h : Base64.decode line = .ok document) :
    Echoes .document line (describeDocument document) := by
  intro slots
  rw [assemble_describeDocument]
  exact congrArg (· ++ [lf]) (Base64.encode_of_decode h)

/-! ## All parcels -/

namespace Source

/-- The units that are made of all parcels' own lines are written as the lines of the input. -/
theorem render_echo {format : Sink.Format} {s : Source} {slots : Slots} (hf : s.fault? = none)
    (hk : Keyed s.keys slots)
    (he : ∀ unit keys keys' line p, lf ∉ line →
      describe s.kind keys unit line = (.ok p, keys') → Echoes format line p) :
    ((assembleAll (descriptors s.parcels) (lines (payloads s.parcels)) slots).1.map
      (Sink.render format)).flatten = (lines s.input).flatMap (· ++ [lf]) := by
  induction s using line_by_line generalizing slots with
  | nil s hi hp => simp [hi, hp, assembleAll]
  | line s s' line p hl hlines hd hkind hp hfault ih =>
    obtain ⟨hfair, hk'⟩ := describe_fair hd hl hk
    have hcount : p.descriptor.expected slots = (lines p.payload).length := by
      rw [length_lines_of_terminated hfair.terminated, hfair.count]
    have hk'' := hk'.congr (Descriptor.assemble_congr (.refl slots) _ [] (lines p.payload))
    have hrest := ih (hfault ▸ hf) hk'' (hkind ▸ he)
    rw [hp, hlines, payloads_cons, lines_append hfair.terminated]
    simp only [List.map_cons, assembleAll, hcount, List.take_left, List.drop_left]
    rw [List.flatten_cons, hrest, he _ _ _ _ _ hl hd slots, List.flatMap_cons]
  | malformed s e h => cases h.symm.trans hf

end Source

/-! ## The collector before such a child -/

namespace Trial

open Collector (Ending)

section

variable {sink : Sink} {units : List Descriptor} {capacity n : Nat} {output : Bytes} {t : Trial}

/-- A child that gives as many lines as the units take: the collector goes on until it has written
all units. -/
theorem balanced (hlimit : sink.outlet.limit = none) (hflush : sink.outlet.flushFails = false)
    (hcap : 0 < capacity) (hsum : (demands units {}).sum = (lines output).length)
    (hrun : Run (start sink {} units .finished capacity output) n t) :
    n ≤ (start sink {} units .finished capacity output).work ∧
      (t.collector.result? = none → ∃ u, Step t u) ∧
      ∀ r, t.collector.result? = some r →
        r = .ok units.length ∧ Written sink {} units output units.length t.collector.sink := by
  have hstart := inv_start sink {} units (show Ending.finished ≠ .kept by simp) hcap output
  have hinv := run_inv hrun hstart
  have hwork := run_work hrun hstart
  refine ⟨by omega, progress hinv, fun r hr => ?_⟩
  cases r with
  | ok m =>
    obtain ⟨-, rfl, -, hw, -⟩ := hinv.of_ok hr
    exact ⟨rfl, hw⟩
  | error e =>
    exfalso
    rcases hinv.failure hlimit hflush hr with ⟨k, rfl⟩ | ⟨k, rfl⟩ | rfl
    · have hlt := (hinv.of_under hr).1
      have hle := sum_take_le_sum (demands units {}) k
      omega
    · have hlt := (hinv.of_over hr).2.1
      omega
    · exact (hinv.of_closed hr).1 rfl

/-- **A source's own lines as the child's output.** Whatever they make of each parcel alone is what
the collector writes for it. -/
theorem echo {s : Source} (hkeys : s.keys = []) (hf : s.fault? = none)
    (he : ∀ unit keys keys' line p, lf ∉ line →
      Source.describe s.kind keys unit line = (.ok p, keys') → Echoes sink.format line p)
    (hlimit : sink.outlet.limit = none) (hflush : sink.outlet.flushFails = false)
    (hcap : 0 < capacity)
    (hrun : Run (start sink {} (descriptors s.parcels) .finished capacity (payloads s.parcels))
      n t) :
    n ≤ (start sink {} (descriptors s.parcels) .finished capacity (payloads s.parcels)).work ∧
      (t.collector.result? = none → ∃ u, Step t u) ∧
      ∀ r, t.collector.result? = some r →
        r = .ok (lines s.input).length ∧
        t.collector.sink.outlet.written = sink.outlet.written ++
          if Terminated s.input then s.input else s.input ++ [lf] := by
  have hk : Source.Keyed s.keys {} := hkeys ▸ Source.keyed_nil
  obtain ⟨hterm, hsum⟩ := Source.sum_demands (List.append_nil s.parcels).symm hk
  rw [← length_lines_of_terminated hterm] at hsum
  obtain ⟨hwork, hgo, hend⟩ := balanced hlimit hflush hcap hsum hrun
  refine ⟨hwork, hgo, fun r hr => ?_⟩
  obtain ⟨rfl, hw⟩ := hend r hr
  refine ⟨by rw [List.length_map, Source.length_parcels hf], ?_⟩
  rw [hw, List.take_length, Source.render_echo hf hk he, flatMap_lines]

end

/-- **Unwrapping undoes wrapping.** Lines of text are wrapped in any way, and the child gives the
pieces back: however they arrive, the collector writes the lines again. -/
theorem wrapping_undone (options : WrapOptions) (input : Bytes)
    (htext : ∀ line ∈ lines input, ∃ text, line = Utf8.encode text) (capacity : Nat)
    (hcap : 0 < capacity) :
    let source : Source := ⟨.fold options, input, 0, []⟩
    let trial := start {} {} (descriptors source.parcels) .finished capacity
      (payloads source.parcels)
    source.fault? = none ∧ ∀ n t, Run trial n t →
      n ≤ trial.work ∧ (t.collector.result? = none → ∃ u, Step t u) ∧
        ∀ r, t.collector.result? = some r →
          r = .ok (lines input).length ∧
          t.collector.sink.outlet.written = if Terminated input then input else input ++ [lf] := by
  intro source trial
  have hfault : source.fault? = none := by
    refine Source.fault?_eq_none fun line hm keys unit => ?_
    obtain ⟨text, ht⟩ := htext line hm
    have hd : Utf8.decode line = .ok text := Utf8.decode_eq_ok_iff.mpr ht
    exact ⟨Source.foldParcel options text, keys, by simp only [source, Source.describe, hd]⟩
  refine ⟨hfault, fun n t hrun => echo rfl hfault ?_ rfl rfl hcap hrun⟩
  intro unit keys keys' line p hl hd
  simp only [source, Source.describe] at hd
  split at hd
  · rename_i text ht
    cases hd
    have hnl := Utf8.newline_not_mem_decode ht hl
    exact Utf8.decode_eq_ok_iff.mp ht ▸ echoes_foldParcel options hnl
  · cases hd

/-- Pieces of two bytes at most, with delimiters between them that are taken out: characters of
three bytes, an empty line, a line of delimiters only, and a rest without line feed. -/
theorem wrapping_undone_delimiters :
    let options : WrapOptions := ⟨2, [' ', '、', ' '], false⟩
    let texts : List (List Char) := [['é', ' ', '、', '語'], [], [' ', ' ', ' ']]
    let input := (texts.map Utf8.encode).flatMap (· ++ [lf]) ++ Utf8.encode ['z']
    let source : Source := ⟨.fold options, input, 0, []⟩
    let trial := start {} {} (descriptors source.parcels) .finished 1 (payloads source.parcels)
    ((∀ line ∈ lines input, ∃ text, line = Utf8.encode text) ∧ 0 < 1) ∧
      source.fault? = none ∧ ∀ n t, Run trial n t →
        (t.collector.result? = none → ∃ u, Step t u) ∧ ∀ r, t.collector.result? = some r →
          r = .ok 4 ∧ t.collector.sink.outlet.written = input ++ [lf] := by
  intro options texts input source trial
  have hterm : Terminated ((texts.map Utf8.encode).flatMap (· ++ [lf])) := by decide
  have hlines : lines input = texts.map Utf8.encode ++ [Utf8.encode ['z']] := by
    rw [lines_append hterm, lines_flatMap (by decide), lines_rest (by decide) (by decide)]
  have htext : ∀ line ∈ lines input, ∃ text, line = Utf8.encode text := by
    intro line hm
    rw [hlines, ← List.map_singleton, ← List.map_append] at hm
    obtain ⟨text, -, rfl⟩ := List.mem_map.mp hm
    exact ⟨text, rfl⟩
  have h := wrapping_undone options input htext 1 Nat.zero_lt_one
  refine ⟨⟨htext, Nat.zero_lt_one⟩, h.1, fun n t hrun => ⟨(h.2 n t hrun).2.1, fun r hr => ?_⟩⟩
  obtain ⟨hok, hw⟩ := (h.2 n t hrun).2.2 r hr
  rw [hlines] at hok
  rw [if_neg (by decide)] at hw
  exact ⟨hok, hw⟩

/-- **Documents are given back as they were.** Documents are sent as their lines, and the child
gives these back: however they arrive, the collector writes the base64 of the documents again. -/
theorem documents_undone (input : Bytes) (capacity : Nat) (hcap : 0 < capacity) :
    let source : Source := ⟨.document, input, 0, []⟩
    let trial := start { format := .document } {} (descriptors source.parcels) .finished capacity
      (payloads source.parcels)
    source.fault? = none → ∀ n t, Run trial n t →
      n ≤ trial.work ∧ (t.collector.result? = none → ∃ u, Step t u) ∧
        ∀ r, t.collector.result? = some r →
          r = .ok (lines input).length ∧
          t.collector.sink.outlet.written = if Terminated input then input else input ++ [lf] := by
  intro source trial hfault n t hrun
  refine echo rfl hfault ?_ rfl rfl hcap hrun
  intro unit keys keys' line p _ hd
  simp only [source, Source.describe] at hd
  split at hd
  · rename_i document hb
    cases hd
    exact echoes_describeDocument hb
  · cases hd

/-- The empty document, a line feed alone, `a` and `b` with a line feed between them, and a byte
that is no text. -/
theorem documents_undone_bytes :
    let encoded : List Bytes := [[], [67, 103, 61, 61], [89, 81, 112, 105], [47, 119, 61, 61]]
    let input := encoded.flatMap (· ++ [lf])
    let source : Source := ⟨.document, input, 0, []⟩
    let trial := start { format := .document } {} (descriptors source.parcels) .finished 1
      (payloads source.parcels)
    (0 < 1 ∧ source.fault? = none) ∧ ∀ n t, Run trial n t →
      (t.collector.result? = none → ∃ u, Step t u) ∧ ∀ r, t.collector.result? = some r →
        r = .ok 4 ∧ t.collector.sink.outlet.written = input := by
  intro encoded input source trial
  have hlines : lines input = encoded := lines_flatMap (by decide)
  have hfault : source.fault? = none := by
    refine Source.fault?_eq_none fun line hm keys unit => ?_
    have hd : ∀ line ∈ encoded, (Base64.decode line).toOption.isSome = true := by decide
    cases hb : Base64.decode line with
    | ok document =>
      exact ⟨describeDocument document, keys, by simp only [source, Source.describe, hb]⟩
    | error e =>
      have := hd line (hlines ▸ hm)
      rw [hb] at this
      cases this
  have h := documents_undone input 1 Nat.zero_lt_one hfault
  refine ⟨⟨Nat.zero_lt_one, hfault⟩, fun n t hrun => ⟨(h n t hrun).2.1, fun r hr => ?_⟩⟩
  obtain ⟨hok, hw⟩ := (h n t hrun).2.2 r hr
  rw [hlines] at hok
  rw [if_pos (by decide)] at hw
  exact ⟨hok, hw⟩

end Trial

end Coprocess
