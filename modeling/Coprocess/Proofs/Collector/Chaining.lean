import Coprocess.Proofs.Collector.Echo

/-!
# Documents that are handed on

The documents that one stage writes are the documents that the next stage reads.

* `Sink.writeAll`, `Sink.exists_writeAll`: a sink without a limit writes all of some units;
* `Source.next_document`, `Source.parcels_documents`: documents that were written are read one after
  the other;
* **`documents_handed_on`**: each document comes as it would by itself, and its lines make it again.
-/

namespace Coprocess

/-! ## Writing -/

namespace Sink

/-- Writes units one after the other, up to one that fails. -/
def writeAll (s : Sink) : List Bytes → Option Failure × Sink
  | [] => (none, s)
  | unit :: units =>
    match s.writeUnit unit with
    | (none, s) => s.writeAll units
    | (some failure, s) => (some failure, s)

theorem exists_writeAll {s : Sink} (hlimit : s.outlet.limit = none) (units : List Bytes) :
    ∃ t, s.writeAll units = (none, t) ∧ s.Holds units t := by
  induction units generalizing s with
  | nil => exact ⟨s, rfl, holds_nil s⟩
  | cons unit units ih =>
    rcases writeUnit_cases s unit with ⟨t, hw, ht⟩ | ⟨t, -, hl⟩
    · obtain ⟨u, hu, hrest⟩ := ih (ht.outlet.1.trans hlimit)
      refine ⟨u, ?_, ht.append hrest⟩
      rw [writeAll, hw]
      exact hu
    · rw [hlimit] at hl
      cases hl

theorem finish_of_flush {s : Sink} (h : s.outlet.flushFails = false) :
    s.finish = (none, { s with outlet := s.outlet.flush.2 }) := by
  simp [finish, Outlet.flush, h]

end Sink

/-! ## Reading -/

namespace Source

theorem next_document (document rest : Bytes) (read : Nat) (keys : List Bytes) :
    next ⟨.document, Base64.encode document ++ lf :: rest, read, keys⟩ =
      some (.ok (describeDocument document), ⟨.document, rest, read + 1, keys⟩) := by
  have hline := nextLine?_line (Base64.lf_not_mem_encode document) rest
  simp only [next, hline, describe, Base64.decode_encode]

theorem parcels_documents (documents : List Bytes) (read : Nat) (keys : List Bytes) :
    let source : Source := ⟨.document, documents.flatMap (Sink.render .document), read, keys⟩
    source.parcels = documents.map describeDocument ∧ source.fault? = none := by
  induction documents generalizing read with
  | nil => exact of_none rfl
  | cons document documents ih =>
    obtain ⟨hparcels, hfault⟩ := ih (read + 1)
    have hnext := next_document document (documents.flatMap (Sink.render .document)) read keys
    have hinput : (document :: documents).flatMap (Sink.render .document) =
        Base64.encode document ++ lf :: documents.flatMap (Sink.render .document) := by
      simp [Sink.render]
    simp only [hinput]
    exact ⟨by rw [parcels_of_ok hnext, hparcels, List.map_cons], by rw [fault?_of_ok hnext, hfault]⟩

end Source

/-- **Documents can be handed from stage to stage.** Whatever documents are written, none of them
fails, and what was written is read as just these documents, one after the other, each as it is
described by itself; then the input is at its end. The lines of a document are as many as its unit
takes, and the unit made of them is the document. -/
theorem documents_handed_on :
    (∀ documents : List Bytes, ∃ sink sink' : Sink,
      ({ format := .document } : Sink).writeAll documents = (none, sink) ∧
        sink.finish = (none, sink') ∧
        let source : Source := { kind := .document, input := sink'.outlet.written }
        source.parcels = documents.map describeDocument ∧ source.fault? = none) ∧
    ∀ (document : Bytes) (slots : Slots),
      let parcel := describeDocument document
      parcel.descriptor.expected slots = (lines parcel.payload).length ∧
        parcel.descriptor.assemble (lines parcel.payload) slots = (document, slots) := by
  refine ⟨fun documents => ?_, fun document slots => ⟨?_, ?_⟩⟩
  · obtain ⟨sink, hw, hh⟩ := Sink.exists_writeAll (s := { format := .document }) rfl documents
    refine ⟨sink, _, hw, Sink.finish_of_flush hh.outlet.2.1, ?_⟩
    have hwritten : sink.outlet.flush.2.written = documents.flatMap (Sink.render .document) :=
      hh.written.trans List.flatMap_def.symm
    rw [hwritten]
    exact Source.parcels_documents documents 0 []
  · have hfair := Source.fair_describeDocument document slots
    rw [length_lines_of_terminated hfair.terminated, hfair.count]
  · exact Prod.ext (assemble_describeDocument document slots) rfl

end Coprocess
