import Coprocess.Proofs.Pipeline.Interleaving
import Coprocess.Proofs.Pool.Emission
import Coprocess.Proofs.Pool.Forwarding

/-!
# A worker and its child

* `Worker.transcribe`: what a child has read and written so far;
* `Worker.Inv`: what holds of a worker that has taken some records and written others;
* `Worker.inv_forwarder`, `Worker.inv_child`, `Worker.inv_drain`: each of the three keeps it;
* `Worker.Copies`: a child that copies its input;
* **`Worker.Inv.of_ok`**: a worker that is done has written the records that it took.
-/

namespace Coprocess

theorem Child.going_of_step {σ : Type} {act : σ → Act σ} {now : Nat} {c c' : Child σ}
    {i i' o o' : Pipe} (h : c.step act now i o = some (c', i', o')) : c.ended = none := by
  unfold step at h
  cases hc : c.ended with
  | none => rfl
  | some reason =>
    rw [hc] at h
    cases h

/-- Success is told only of a child that exited with code 0. -/
theorem Child.ended_of_succeeded {σ : Type} {c : Child σ} {reason : Termination}
    (h : c.status.map WaitStatus.termination? = .ok (some reason))
    (hok : reason.isSuccess = true) : c.ended = some (.exited 0) := by
  unfold status at h
  cases hc : c.ended with
  | none =>
    rw [hc] at h
    cases h
  | some ending =>
    rw [hc] at h
    cases ending with
    | exited code =>
      cases h
      rw [of_decide_eq_true hok]
    | signaled s coreDumped =>
      simp only [ProcessEnd.status] at h
      cases hs : s.named? with
      | none =>
        rw [hs] at h
        cases h
      | some named =>
        rw [hs] at h
        cases h
        cases hok

namespace Worker

variable {σ : Type}

/-- The child looks at its input and finds the end. -/
def meetsEnd (act : σ → Act σ) (w : Worker σ) : Bool :=
  match act w.child.state with
  | .read _ _ | .readLine _ => w.input.readable && w.input.content.isEmpty && !w.input.writable
  | _ => false

/-- The transcript of a child after its step. -/
def transcribe (act : σ → Act σ) (t : Transcript) (w w' : Worker σ) : Transcript where
  taken := t.taken ++ w.input.content.take (w.input.content.length - w'.input.content.length)
  answered := t.answered ++ w'.output.content.drop w.output.content.length
  atEnd := t.atEnd || w.meetsEnd act

variable {act : σ → Act σ} {f : Framing} {compress : Bool} {c c' : Channel Bytes}
  {rs es : List Bytes} {t : Transcript} {w : Worker σ}

/-- What holds of a worker that has taken the records `rs` and written the records `es`. -/
structure Inv (f : Framing) (compress : Bool) (c : Channel Bytes) (rs es : List Bytes)
    (t : Transcript) (w : Worker σ) : Prop where
  forwarder : w.forwarder.Inv c rs (t.taken ++ w.input.content) w.input
  drain : w.drain.Inv f compress es t.answered w.output
  atEnd : t.atEnd = true → w.forwarder.result?.isSome = true ∧ w.input.content = []

theorem Inv.mono (h : w.Inv f compress c rs es t) (hc : c.Drained → c'.Drained) :
    w.Inv f compress c' rs es t :=
  ⟨h.forwarder.mono hc, h.drain, h.atEnd⟩

theorem meetsEnd_iff (h : w.meetsEnd act = true) :
    w.input.readable = true ∧ w.input.content = [] ∧ w.input.writable = false := by
  unfold meetsEnd at h
  split at h
  · simpa [and_assoc] using h
  · simpa [and_assoc] using h
  · cases h

theorem inv_forwarder {fw : Forwarder} {i : Pipe}
    (hs : w.forwarder.step c w.input = some (fw, c', i)) (h : w.Inv f compress c rs es t) :
    ∃ taken part, Inv f compress c' (rs ++ taken) es t { w with forwarder := fw, input := i } ∧
      Forwarder.Effect c c' w.input i taken part := by
  obtain ⟨taken, part, hinv, he⟩ := Forwarder.step_inv hs h.forwarder
  refine ⟨taken, part, ⟨?_, h.drain, fun hend => ?_⟩, he⟩
  · rw [List.append_assoc, ← he.content] at hinv
    exact hinv
  · have hret := (h.atEnd hend).1
    rw [Forwarder.going_of_step hs h.forwarder] at hret
    cases hret

theorem inv_child {now : Nat} {ch : Child σ} {i o : Pipe}
    (hs : w.child.step act now w.input w.output = some (ch, i, o))
    (h : w.Inv f compress c rs es t) :
    Inv f compress c rs es (w.transcribe act t { w with child := ch, input := i, output := o })
      { w with child := ch, input := i, output := o } := by
  obtain ⟨bytes, answered, he⟩ := Child.step_effect hs
  have ht : w.transcribe act t { w with child := ch, input := i, output := o } =
      ⟨t.taken ++ bytes, t.answered ++ answered, t.atEnd || w.meetsEnd act⟩ := by
    have hi : w.input.content.take (w.input.content.length - i.content.length) = bytes := by
      rw [he.content, List.length_append, Nat.add_sub_cancel, List.take_left]
    have ho : o.content.drop w.output.content.length = answered := by
      rw [he.grows.content, List.drop_left]
    simp only [transcribe, hi, ho]
  rw [ht]
  refine ⟨?_, h.drain.grows he.grows, fun hend => ?_⟩
  · have hsent : t.taken ++ bytes ++ i.content = t.taken ++ w.input.content := by
      rw [he.content, List.append_assoc]
    rw [hsent]
    exact ⟨h.forwarder.tidy, he.writable.trans h.forwarder.writable, h.forwarder.idle,
      h.forwarder.kept⟩
  · have hmet : w.forwarder.result?.isSome = true ∧ w.input.content = [] := by
      rcases Bool.or_eq_true_iff.mp hend with hend | hend
      · exact h.atEnd hend
      · -- The end of the input was met, so the forwarder has closed it.
        obtain ⟨-, hempty, hw⟩ := meetsEnd_iff hend
        rw [h.forwarder.writable] at hw
        exact ⟨by simpa using hw, hempty⟩
    have hcontent := he.content
    rw [hmet.2] at hcontent
    exact ⟨hmet.1, (List.append_eq_nil_iff.mp hcontent.symm).2⟩

theorem inv_drain {d : Drain} {p : Pipe} {o o' : Outlet}
    (hs : w.drain.step w.output o = some (d, p, o')) (h : w.Inv f compress c rs es t) :
    ∃ more, Inv f compress c rs (es ++ more) t { w with drain := d, output := p } ∧
      Drain.Effect compress o o' more ∧ more.length ≤ 1 := by
  obtain ⟨more, hinv, he, hone⟩ := Drain.step_inv hs h.drain
  exact ⟨more, ⟨h.forwarder, hinv, h.atEnd⟩, he, hone⟩

/-- A child that copies: when it succeeds it has read to the end of its input, and has written what
it has read. -/
def Copies (w : Worker σ) (t : Transcript) : Prop :=
  w.child.ended = some (.exited 0) → t.atEnd = true ∧ t.answered = t.taken

/-- **A worker that is done has written the records that it took.** -/
theorem Inv.of_ok (h : w.Inv f compress c rs es t) (hrs : ∀ r ∈ rs, f.Whole r)
    (hcopies : w.Copies t) (hended : w.child.ended = some (.exited 0)) {n m : Nat}
    (hf : w.forwarder.result? = some (.ok n)) (hd : w.drain.result? = some (.ok m)) :
    es = rs ∧ m = rs.length ∧ c.Drained := by
  obtain ⟨hend, hanswer⟩ := hcopies hended
  obtain ⟨hdrained, hsent⟩ := h.forwarder.of_ok hf
  obtain ⟨hm, hdivides⟩ := h.drain.of_ok hd
  rw [(h.atEnd hend).2, List.append_nil] at hsent
  rw [hanswer, hsent] at hdivides
  have he := hdivides.unique (Framing.divides_flatten hrs)
  exact ⟨he, hm.trans (congrArg _ he), hdrained⟩

end Worker

end Coprocess
