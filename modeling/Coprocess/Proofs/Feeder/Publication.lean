import Coprocess.Proofs.Pipeline.Unfailed

/-!
# Publication before writing

A feeder takes its steps while others do at the other ends of its queue and its pipe what they like:
they take messages, read bytes, or go away.

* `Feeder.Scene`: a feeder with its queue and its pipe, and what has left these;
* `Feeder.Event`, `Feeder.Scene.next`, `Feeder.Scene.run`: a step of the feeder or of somebody else,
  and any number of them;
* `Feeder.Scene.Inv`, `Feeder.Scene.run_inv`: what holds after any events;
* **`Feeder.publication_order`**: a descriptor is queued before the lines of its unit are sent, and
  the end marker after all of them.
-/

namespace Coprocess

/-- The next step of the call under way finds that nobody can read what is written. -/
def Writer.fails (w : Writer) (p : Pipe) : Bool :=
  match w.step p with
  | .broken _ => true
  | _ => false

theorem Writer.fails_of_idle {w : Writer} {p : Pipe} (h : w.call = .idle) : w.fails p = false := by
  rw [fails, step_idle h]

theorem Writer.fails_of_moved {w w' : Writer} {p p' : Pipe} (h : w.step p = .moved w' p') :
    w.fails p = false := by
  rw [fails, h]

namespace Feeder

/-! ## Scenes -/

/-- A feeder with its queue and its pipe, and what has left these. -/
structure Scene where
  feeder : Feeder
  queue : Queue Descriptor
  pipe : Pipe
  /-- The messages that were taken from the queue, or lost with it. -/
  gone : List (Message Descriptor) := []
  /-- The bytes that were read from the pipe. -/
  read : Bytes := []
  /-- A write has failed. -/
  failed : Bool := false

/-- What can happen in a scene. -/
inductive Event
  | feeder
  /-- The message that waited longest is taken. -/
  | receive
  /-- At least one byte is read, and `more` beyond it at most. -/
  | read (more : Nat)
  /-- The consumer of the queue goes away. -/
  | desert
  /-- The read end of the pipe is closed. -/
  | close

namespace Scene

/-- All messages that were put into the queue. -/
def queued (s : Scene) : List (Message Descriptor) := s.gone ++ s.queue.waiting.toList

/-- All bytes that were put into the pipe. -/
def sent (s : Scene) : Bytes := s.read ++ s.pipe.content

/-- A feeder at its start. -/
def start (source : Source) (flushEvery : Nat) (capacity : Option Nat) (room : Nat) : Scene where
  feeder := Feeder.new source flushEvery
  queue := Queue.new capacity
  pipe := { capacity := room }

/-- The scene after an event, or `none` while it cannot happen. -/
def next (s : Scene) : Event → Option Scene
  | .feeder => (s.feeder.step s.queue s.pipe).map fun (feeder, queue, pipe) =>
    { s with feeder, queue, pipe, failed := s.failed || s.feeder.writer.fails s.pipe }
  | .receive =>
    match s.queue.receive with
    | .message m queue => some { s with queue, gone := s.gone ++ [m] }
    | _ => none
  | .read more =>
    match s.pipe.read (more + 1) with
    | .data bytes pipe => some { s with pipe, read := s.read ++ bytes }
    | _ => none
  | .desert =>
    let queue := s.queue.dropConsumer
    let lost := s.queue.waiting.toList.take (s.queue.waiting.size - queue.waiting.size)
    some { s with queue, gone := s.gone ++ lost }
  | .close => some { s with pipe := s.pipe.closeReader }

/-- The scene after some events. -/
def run (s : Scene) : List Event → Option Scene
  | [] => some s
  | e :: es => (s.next e).bind fun s => s.run es

theorem run_cons {s s' : Scene} {e : Event} {es : List Event} (h : s.run (e :: es) = some s') :
    ∃ t, s.next e = some t ∧ t.run es = some s' := Option.bind_eq_some_iff.mp h

end Scene

/-! ## The invariant -/

/-- A feeder that goes away, or has gone, after a failure. -/
def GivesUp (f : Feeder) : Prop :=
  ∃ e, f.phase = .abandoning e ∨ f.phase = .returned (.error e)

theorem Move.givesUp {f f' : Feeder} {q q' : Queue Descriptor} {p p' : Pipe}
    (h : Move f q p f' q' p') (hf : f.GivesUp ∨ f.writer.fails p = true) : f'.GivesUp := by
  have hidle {P : Prop} (hi : f.writer.call = .idle) (hp : ∀ e, f.phase ≠ .abandoning e ∧
      f.phase ≠ .returned (.error e)) : P := by
    rcases hf with ⟨e, he | he⟩ | hf
    · exact absurd he (hp e).1
    · exact absurd he (hp e).2
    · rw [Writer.fails_of_idle hi] at hf
      cases hf
  cases h with
  | push hi hw =>
    rcases hf with hf | hf
    · exact hf
    · rw [Writer.fails_of_moved hw] at hf
      cases hf
  | broken | refuse | desert | desertEnd => exact ⟨_, .inl rfl⟩
  | brokenAgain | leave => exact ⟨_, .inr rfl⟩
  | publish hi hp =>
    refine hidle hi fun e => ?_
    rcases hp with hp | hp <;> simp [hp]
  | fetch hi hp | runOut hi hp | await hi hp | skip hi hp | send hi hp | count hi hp
  | flush hi hp | finish hi hp | close hi hp =>
    exact hidle hi fun e => by simp [hp]

namespace Scene

/-- What holds of a scene whose feeder started with the source `s₀`: the descriptors of `published`
were put into the queue, and a feeder whose write has failed gives up. -/
structure Inv (s₀ : Source) (published : List Parcel) (s : Scene) : Prop where
  feeder : s.feeder.Inv s₀ published s.queued s.sent s.queue s.pipe
  present : Present s.queue s.pipe s.feeder
  failed : s.failed = true → s.feeder.GivesUp

variable {s₀ : Source} {published : List Parcel} {s s' : Scene} {e : Event}

theorem inv_start (source : Source) (flushEvery : Nat) (capacity : Option Nat) (room : Nat) :
    (start source flushEvery capacity room).Inv source [] :=
  ⟨inv_new source flushEvery _ _, ⟨rfl, fun h => by cases h⟩, fun h => by cases h⟩

theorem dropConsumer_waiting (q : Queue Descriptor) :
    q.waiting.toList.take (q.waiting.size - q.dropConsumer.waiting.size) ++
      q.dropConsumer.waiting.toList = q.waiting.toList := by
  unfold Queue.dropConsumer
  by_cases hc : q.capacity.isNone = true
  · rw [if_pos hc, show ({} : Fifo (Message Descriptor)).size = 0 from rfl, Nat.sub_zero,
      ← Fifo.length_toList, List.take_length, Fifo.toList_empty, List.append_nil]
  · rw [if_neg hc, Nat.sub_self, List.take_zero, List.nil_append]

/-- What others do moves messages and bytes on, and opens no end. -/
theorem Inv.others (h : s.Inv s₀ published) {queue : Queue Descriptor} {pipe : Pipe}
    {gone : List (Message Descriptor)} {read : Bytes}
    (hq : gone ++ queue.waiting.toList = s.queued) (hp : read ++ pipe.content = s.sent)
    (hproducing : queue.producing = s.queue.producing) (hwritable : pipe.writable = s.pipe.writable)
    (hconsuming : queue.consuming = true → s.queue.consuming = true)
    (hreadable : pipe.readable = true → s.pipe.readable = true) :
    { s with queue, pipe, gone, read }.Inv s₀ published := by
  refine ⟨?_, ⟨hwritable.trans h.present.writable, fun hr => ?_⟩, h.failed⟩
  · have hf := h.feeder.mono hconsuming hreadable
    rw [← hq, ← hp] at hf
    exact hf
  · exact hproducing.trans (h.present.producing hr)

theorem next_inv (h : s.next e = some s') (hinv : s.Inv s₀ published) :
    ∃ published, s'.Inv s₀ published := by
  cases e with
  | feeder =>
    obtain ⟨⟨f, q, p⟩, hs, rfl⟩ := Option.map_eq_some_iff.mp h
    obtain ⟨more, messages, part, he, hf⟩ := Feeder.step_inv hs hinv.feeder
    have hqueued : s.gone ++ q.waiting.toList = s.queued ++ messages := by
      rw [he.waiting, ← List.append_assoc]
      rfl
    have hsent : s.read ++ p.content = s.sent ++ part := by
      rw [he.content, ← List.append_assoc]
      rfl
    rw [← hqueued, ← hsent] at hf
    refine ⟨_, hf, present_step hs hinv.feeder hinv.present, fun hfail => ?_⟩
    refine (move_of_step hs).givesUp ?_
    rcases Bool.or_eq_true_iff.mp hfail with hfail | hfail
    · exact .inl (hinv.failed hfail)
    · exact .inr hfail
  | receive =>
    unfold next at h
    rcases Queue.receive_cases s.queue with ⟨m, waiting, hw, hr⟩ | ⟨-, -, hr⟩ | ⟨-, -, hr⟩ <;>
      simp only [hr] at h <;> cases h
    have hqueued : s.gone ++ [m] ++ waiting.toList = s.queued := by
      rw [queued, hw, List.append_assoc, List.singleton_append]
    exact ⟨published, hinv.others hqueued rfl rfl rfl id id⟩
  | read more =>
    unfold next at h
    cases hr : s.pipe.read (more + 1) with
    | data bytes pipe =>
      simp only [hr] at h
      cases h
      obtain ⟨hc, hp, -, -⟩ := Pipe.read_data hr
      have hsent : s.read ++ bytes ++ pipe.content = s.sent := by
        rw [sent, hc, List.append_assoc]
      refine ⟨published, hinv.others rfl hsent rfl ?_ id ?_⟩
      · rw [hp]
      · rw [hp]
        exact id
    | empty | ended =>
      simp only [hr] at h
      cases h
  | desert =>
    cases h
    refine ⟨published, hinv.others ?_ rfl rfl rfl (fun hc => by cases hc) id⟩
    rw [List.append_assoc, dropConsumer_waiting]
    rfl
  | close =>
    cases h
    exact ⟨published, hinv.others rfl rfl rfl rfl id (fun hr => by cases hr)⟩

theorem run_inv {es : List Event} (h : s.run es = some s') (hinv : s.Inv s₀ published) :
    ∃ published, s'.Inv s₀ published := by
  induction es generalizing s published with
  | nil =>
    cases h
    exact ⟨published, hinv⟩
  | cons e es ih =>
    obtain ⟨t, hn, ht⟩ := run_cons h
    obtain ⟨published, htinv⟩ := next_inv hn hinv
    exact ih ht htinv

end Scene

/-- **Publication order.** Whatever happens at the other ends, the bytes that a feeder has put into
its pipe are a beginning of the lines of the parcels whose descriptors it has put into its queue.
The end marker is queued once, after all descriptors and all bytes, and not if a line of the source
is malformed or a write fails. -/
theorem publication_order {source : Source} {flushEvery room : Nat} {capacity : Option Nat}
    {events : List Event} {s : Scene}
    (h : (Scene.start source flushEvery capacity room).run events = some s) :
    ∃ published, published <+: source.parcels ∧ s.sent <+: payloads published ∧
      (s.queued = items published ∨
        s.queued = items published ++ [.finished] ∧ published = source.parcels ∧
          s.sent = payloads source.parcels ∧ source.fault? = none ∧ s.failed = false ∧
          ∀ e, s.feeder.result? ≠ some (.error e)) := by
  obtain ⟨published, hinv⟩ := Scene.run_inv h (Scene.inv_start source flushEvery capacity room)
  obtain ⟨hpublished, hsent, hq⟩ := hinv.feeder.announced
  refine ⟨published, hpublished, hsent, ?_⟩
  rcases hq with hq | ⟨hq, rfl, hfault, hall⟩
  · exact .inl hq
  · have hgoing : ¬ s.feeder.GivesUp := by
      rintro ⟨e, he⟩
      have hlog := (hinv.feeder.failing he).2
      rw [hq] at hlog
      simpa using congrArg List.length hlog
    refine .inr ⟨hq, rfl, hall, hfault, ?_, fun e he => ?_⟩
    · exact Bool.eq_false_iff.mpr fun hf => hgoing (hinv.failed hf)
    · exact hgoing ⟨e, .inr (phase_of_result? he)⟩

/-- Two lines are published, one byte is sent, and then nobody reads on: no end marker is queued. -/
theorem publication_order_broken :
    let source : Source := { kind := .cache {}, input := [97, lf, 98, lf] }
    let events : List Event := List.replicate 10 .feeder ++ [.close, .feeder, .feeder]
    ∃ s, (Scene.start source 3 none 1).run events = some s ∧ s.failed = true ∧ s.sent = [97] ∧
      s.queued.length = 2 ∧ s.sent <+: payloads source.parcels ∧ .finished ∉ s.queued := by
  intro source events
  have hrun : ((Scene.start source 3 none 1).run events).map
      (fun s => (s.failed, s.sent, s.queued.length)) = some (true, [97], 2) := by
    decide +kernel
  obtain ⟨s, hs, he⟩ := Option.map_eq_some_iff.mp hrun
  simp only [Prod.mk.injEq] at he
  obtain ⟨hfailed, hsent, htwo⟩ := he
  obtain ⟨published, ⟨rest, hp⟩, hpre, hq⟩ := publication_order hs
  refine ⟨s, hs, hfailed, hsent, htwo, hpre.trans ?_, ?_⟩
  · rw [← hp, payloads_append]
    exact List.prefix_append _ _
  · rcases hq with hq | ⟨-, -, -, -, hgoing, -⟩
    · simp [hq]
    · rw [hfailed] at hgoing
      cases hgoing

end Feeder

end Coprocess
