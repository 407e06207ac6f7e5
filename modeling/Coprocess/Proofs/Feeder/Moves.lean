import Coprocess.Pipeline.Feeder
import Coprocess.Proofs.Pipe.Transfer

/-!
# The moves of a feeder

* `Feeder.Move`: what a step of a feeder can be, with what it finds and what it leaves behind;
* **`Feeder.move_of_step`**: every step is one of the moves.
-/

namespace Coprocess.Feeder

/-- A move of a feeder `f` at a queue `q` and a pipe `p`. The first three are those of its writer,
the others are made while the writer is idle. -/
inductive Move (f : Feeder) (q : Queue Descriptor) (p : Pipe) :
    Feeder → Queue Descriptor → Pipe → Prop
  | push {w : Writer} {p' : Pipe} (hi : f.writer.call ≠ .idle)
      (hw : f.writer.step p = .moved w p') : Move f q p { f with writer := w } q p'
  | broken {w : Writer} (hi : f.writer.call ≠ .idle) (hw : f.writer.step p = .broken w)
      (hp : ∀ e, f.phase ≠ .abandoning e) :
      Move f q p ({ f with writer := w }.abandon (.io (.os .pipe))) q p
  | brokenAgain {w : Writer} {e : Failure} (hi : f.writer.call ≠ .idle)
      (hw : f.writer.step p = .broken w) (hp : f.phase = .abandoning e) :
      Move f q p { f with writer := w, phase := .returned (.error e) } q.dropProducer p.closeWriter
  | fetch {parcel : Parcel} {s : Source} (hi : f.writer.call = .idle) (hp : f.phase = .fetching)
      (hn : f.source.next = some (.ok parcel, s)) :
      Move f q p { f with source := s, fed := f.fed + 1, phase := .offering parcel } q p
  | refuse {e : Failure} {s : Source} (hi : f.writer.call = .idle) (hp : f.phase = .fetching)
      (hn : f.source.next = some (.error e, s)) : Move f q p ({ f with source := s }.abandon e) q p
  | runOut (hi : f.writer.call = .idle) (hp : f.phase = .fetching) (hn : f.source.next = none) :
      Move f q p { f with phase := .ending, writer := f.writer.flush } q p
  | publish {parcel : Parcel} (hi : f.writer.call = .idle)
      (hp : f.phase = .offering parcel ∨ f.phase = .awaiting parcel) (hc : q.consuming = true) :
      Move f q p { f with phase := .writing parcel.payload }
        { q with waiting := q.waiting.push (.item parcel.descriptor) } p
  | await {parcel : Parcel} (hi : f.writer.call = .idle) (hp : f.phase = .offering parcel)
      (hf : q.isFull = true) :
      Move f q p { f with phase := .awaiting parcel, writer := f.writer.flush } q p
  | desert {parcel : Parcel} (hi : f.writer.call = .idle)
      (hp : f.phase = .offering parcel ∨ f.phase = .awaiting parcel) (hc : q.consuming = false) :
      Move f q p (f.abandon .queueClosed) q p
  | skip (hi : f.writer.call = .idle) (hp : f.phase = .writing []) :
      Move f q p { f with phase := .fetching } q p
  | send {payload : Bytes} (hi : f.writer.call = .idle) (hp : f.phase = .writing payload)
      (hne : payload ≠ []) :
      Move f q p { f with phase := .counting, writer := f.writer.write payload } q p
  | count (hi : f.writer.call = .idle) (hp : f.phase = .counting)
      (hf : f.pending + 1 < f.flushEvery) :
      Move f q p { f with phase := .fetching, pending := f.pending + 1 } q p
  | flush (hi : f.writer.call = .idle) (hp : f.phase = .counting)
      (hf : f.flushEvery ≤ f.pending + 1) :
      Move f q p { f with phase := .fetching, pending := 0, writer := f.writer.flush } q p
  | finish (hi : f.writer.call = .idle) (hp : f.phase = .ending) (hc : q.consuming = true) :
      Move f q p { f with phase := .closing, writer := f.writer.flush }
        { q with waiting := q.waiting.push .finished, producing := false } p
  | desertEnd (hi : f.writer.call = .idle) (hp : f.phase = .ending) (hc : q.consuming = false) :
      Move f q p (f.abandon .queueClosed) q.dropProducer p
  | close (hi : f.writer.call = .idle) (hp : f.phase = .closing) :
      Move f q p { f with phase := .returned (.ok f.fed) } q.dropProducer p.closeWriter
  | leave {e : Failure} (hi : f.writer.call = .idle) (hp : f.phase = .abandoning e) :
      Move f q p { f with phase := .returned (.error e) } q.dropProducer p.closeWriter

variable {f f' : Feeder} {q q' : Queue Descriptor} {p p' : Pipe}

theorem move_of_publish {parcel : Parcel} {whenFull : Option (Feeder × Queue Descriptor × Pipe)}
    (hi : f.writer.call = .idle) (hp : f.phase = .offering parcel ∨ f.phase = .awaiting parcel)
    (h : f.publish parcel q p whenFull = some (f', q', p')) :
    Move f q p f' q' p' ∨ q.isFull = true ∧ whenFull = some (f', q', p') := by
  unfold publish at h
  rcases Queue.send_cases q (.item parcel.descriptor) with
    ⟨hc, hs⟩ | ⟨-, hf, hs⟩ | ⟨hc, -, hs⟩ <;> rw [hs] at h
  · cases h
    exact .inl (.desert hi hp hc)
  · exact .inr ⟨hf, h⟩
  · cases h
    exact .inl (.publish hi hp hc)

theorem move_of_stepPhase (hi : f.writer.call = .idle)
    (h : f.stepPhase q p = some (f', q', p')) : Move f q p f' q' p' := by
  unfold stepPhase at h
  cases hp : f.phase with
  | fetching =>
    simp only [hp] at h
    split at h <;> rename_i hn <;> cases h
    · exact .runOut hi hp hn
    · exact .refuse hi hp hn
    · exact .fetch hi hp hn
  | offering parcel =>
    simp only [hp] at h
    rcases move_of_publish hi (.inl hp) h with hm | ⟨hf, h⟩
    · exact hm
    · cases h
      exact .await hi hp hf
  | awaiting parcel =>
    simp only [hp] at h
    rcases move_of_publish hi (.inr hp) h with hm | ⟨-, h⟩
    · exact hm
    · cases h
  | writing payload =>
    simp only [hp] at h
    split_ifs at h with he <;> cases h
    · exact .skip hi (by rw [hp, List.isEmpty_iff.mp he])
    · exact .send hi hp (by simpa using he)
  | counting =>
    simp only [hp] at h
    split_ifs at h with hf <;> cases h
    · exact .flush hi hp hf
    · exact .count hi hp (Nat.lt_of_not_le hf)
  | ending =>
    simp only [hp] at h
    rcases Queue.send_cases q .finished with ⟨hc, hs⟩ | ⟨-, -, hs⟩ | ⟨hc, -, hs⟩ <;>
      rw [hs] at h <;> cases h
    · exact .desertEnd hi hp hc
    · exact .finish hi hp hc
  | closing =>
    simp only [hp] at h
    cases h
    exact .close hi hp
  | abandoning e =>
    simp only [hp] at h
    cases h
    exact .leave hi hp
  | returned result =>
    simp only [hp] at h
    cases h

/-- **Every step of a feeder is a move.** -/
theorem move_of_step (h : f.step q p = some (f', q', p')) : Move f q p f' q' p' := by
  unfold step at h
  split_ifs at h with hidle
  · exact move_of_stepPhase (Writer.isIdle_iff.mp hidle) h
  · have hi : f.writer.call ≠ .idle := fun hc => hidle (Writer.isIdle_iff.mpr hc)
    unfold stepWriter at h
    cases hw : f.writer.step p with
    | moved w p₁ =>
      simp only [hw] at h
      cases h
      exact .push hi hw
    | blocked =>
      simp only [hw] at h
      cases h
    | broken w =>
      simp only [hw] at h
      split at h <;> rename_i hp <;> cases h
      · exact .brokenAgain hi hw hp
      · exact .broken hi hw hp

end Coprocess.Feeder
