import Coprocess.Pipeline.Run
import Coprocess.Proofs.Collector.Collecting
import Coprocess.Proofs.Collector.Progress
import Coprocess.Proofs.Feeder.Feeding

/-!
# Any order of steps

A feeder, a child and a collector take steps in any order.

* **`Child.step_effect`**: a child reads from the front of its input and adds to the end of its
  output;
* `Transcript`: what a child has read and written so far;
* `Pipeline.Reaches`: the states of a pipeline after any order of steps;
* `Pipeline.Inv`: what holds of the feeder, the collector and the bytes between them;
* **`Pipeline.reaches_inv`**: the invariant holds in every such state.
-/

namespace Coprocess

/-! ## Children -/

namespace Child

variable {σ : Type} {act : σ → Act σ} {now : Nat} {c c' : Child σ}
  {input input' output output' : Pipe}

/-- What a child does to its pipes: `taken` is what it reads, `answered` what it writes. -/
structure Effect (input input' output output' : Pipe) (taken answered : Bytes) : Prop where
  content : input.content = taken ++ input'.content
  writable : input'.writable = input.writable
  readable : input'.readable = true → input.readable = true
  capacity : input'.capacity = input.capacity
  grows : Collector.Grows output output' answered

theorem Effect.still (input output : Pipe) : Effect input input output output [] [] :=
  ⟨rfl, rfl, id, rfl, by simp, fun h => absurd rfl h, id, rfl, rfl⟩

theorem Effect.closeInput {taken answered : Bytes}
    (h : Effect input input' output output' taken answered) :
    Effect input input'.closeReader output output' taken answered :=
  ⟨h.content, h.writable, fun e => (by cases e), h.capacity, h.grows⟩

theorem Effect.closeOutput {taken answered : Bytes}
    (h : Effect input input' output output' taken answered) :
    Effect input input' output output'.closeWriter taken answered :=
  ⟨h.content, h.writable, h.readable, h.capacity, h.grows.content, h.grows.ends,
    fun e => (by cases e), h.grows.readable, h.grows.capacity⟩

theorem Effect.read {most : Nat} {bytes : Bytes} (h : input.read most = .data bytes input')
    (output : Pipe) : Effect input input' output output bytes [] := by
  obtain ⟨hc, hp, -, -⟩ := Pipe.read_data h
  refine ⟨hc, ?_, ?_, ?_, (Effect.still input output).grows⟩ <;> rw [hp]
  exact id

theorem Effect.write {data : Bytes} {count : Nat} (hw : output.writable = true)
    (h : output.write data = .moved count output') (input : Pipe) :
    Effect input input output output' [] (data.take output.room) := by
  obtain ⟨-, rfl, hr, -⟩ := Pipe.write_moved h
  exact ⟨rfl, rfl, id, rfl, Collector.grows_write hw hr _⟩

theorem stepRead_effect {most : Nat} {next : Option Bytes → σ}
    (h : c.stepRead most next input output = some (c', input', output')) :
    ∃ taken, Effect input input' output output' taken [] := by
  unfold stepRead at h
  split_ifs at h with hr
  · cases h
    exact ⟨[], Effect.still _ _⟩
  · cases hd : input.read most with
    | data bytes rest =>
      simp only [hd] at h
      cases h
      exact ⟨bytes, Effect.read hd _⟩
    | ended =>
      simp only [hd] at h
      cases h
      exact ⟨[], Effect.still _ _⟩
    | empty =>
      simp only [hd] at h
      cases h

/-- **What a child does to its pipes**: it takes bytes from the front of its input and adds bytes at
the end of its output. -/
theorem step_effect (h : c.step act now input output = some (c', input', output')) :
    ∃ taken answered, Effect input input' output output' taken answered := by
  unfold step at h
  by_cases he : (c.ended.isSome || decide (now < c.wakeAt)) = true
  · rw [if_pos he] at h
    cases h
  rw [if_neg he] at h
  cases ha : act c.state with
  | read most next =>
    simp only [ha] at h
    obtain ⟨taken, ht⟩ := stepRead_effect h
    exact ⟨taken, [], ht⟩
  | readLine next =>
    simp only [ha] at h
    obtain ⟨taken, ht⟩ := stepRead_effect h
    exact ⟨taken, [], ht⟩
  | write data next broken =>
    simp only [ha] at h
    split_ifs at h with hrest hw
    · cases h
      exact ⟨[], [], Effect.still _ _⟩
    · cases h
      exact ⟨[], [], Effect.still _ _⟩
    · cases hwr : output.write (data.drop c.sent) with
      | moved count p =>
        simp only [hwr] at h
        cases h
        exact ⟨[], _, Effect.write (by simpa using hw) hwr _⟩
      | full =>
        simp only [hwr] at h
        cases h
      | broken =>
        simp only [hwr] at h
        cases h
        exact ⟨[], [], Effect.still _ _⟩
  | warn | go | pause =>
    simp only [ha] at h
    cases h
    exact ⟨[], [], Effect.still _ _⟩
  | closeInput =>
    simp only [ha] at h
    cases h
    exact ⟨[], [], (Effect.still _ _).closeInput⟩
  | closeOutput =>
    simp only [ha] at h
    cases h
    exact ⟨[], [], (Effect.still _ _).closeOutput⟩
  | exit | raise =>
    simp only [ha] at h
    cases h
    exact ⟨[], [], (Effect.still _ _).closeInput.closeOutput⟩

end Child

/-! ## Runs -/

/-- What a child has done so far. -/
structure Transcript where
  /-- What it has read. -/
  taken : Bytes := []
  /-- What it has written. -/
  answered : Bytes := []
  /-- It has read up to the end of its input. -/
  atEnd : Bool := false

namespace Pipeline

variable {σ : Type}

/-- The child looks at its input and finds the end. -/
def meetsEnd (act : σ → Act σ) (p : Pipeline σ) : Bool :=
  match act p.child.state with
  | .read _ _ | .readLine _ => p.input.readable && p.input.content.isEmpty && !p.input.writable
  | _ => false

/-- The transcript after a step from `p` to `p'`. -/
def record (act : σ → Act σ) (t : Transcript) (p p' : Pipeline σ) : Actor → Transcript
  | .child =>
    { taken := t.taken ++ p.input.content.take (p.input.content.length - p'.input.content.length)
      answered := t.answered ++ p'.output.content.drop p.output.content.length
      atEnd := t.atEnd || p.meetsEnd act }
  | _ => t

/-- The states after any order of steps at any times, with the transcript of the child; `Allowed`
restricts the child, and it holds all the way. -/
inductive Reaches (act : σ → Act σ) (Allowed : Pipeline σ → Transcript → Prop) (s : Pipeline σ) :
    Pipeline σ → Transcript → Prop
  | start (h : Allowed s {}) : Reaches act Allowed s s {}
  | step {p p' : Pipeline σ} {t : Transcript} (h : Reaches act Allowed s p t) (now : Nat)
      (actor : Actor) (hs : p.stepOf act now actor = some p')
      (ha : Allowed p' (record act t p p' actor)) :
      Reaches act Allowed s p' (record act t p p' actor)

theorem record_child {act : σ → Act σ} {p p' : Pipeline σ} {taken answered : Bytes}
    (h : Child.Effect p.input p'.input p.output p'.output taken answered) (t : Transcript) :
    record act t p p' .child =
      ⟨t.taken ++ taken, t.answered ++ answered, t.atEnd || p.meetsEnd act⟩ := by
  have hi : p.input.content.take (p.input.content.length - p'.input.content.length) = taken := by
    rw [h.content, List.length_append, Nat.add_sub_cancel, List.take_left]
  have ho : p'.output.content.drop p.output.content.length = answered := by
    rw [h.grows.content, List.drop_left]
  rw [record, hi, ho]

/-! ## The invariant of a pipeline -/

/-- What holds of a pipeline that started with the source `s₀`, the sink `sink₀` and empty pipes:
`published` are the parcels whose descriptors are in the queue's `log`, those in `taken` were taken
from it, and of what the child has written the bytes `before` are read. A child that has met the end
of its input has read the lines of all parcels that were published. -/
structure Inv (s₀ : Source) (sink₀ : Sink) (published : List Parcel) (taken : List Descriptor)
    (log : List (Message Descriptor)) (before : Bytes) (p : Pipeline σ) (t : Transcript) :
    Prop where
  feeder : p.feeder.Inv s₀ published log (t.taken ++ p.input.content) p.queue p.input
  present : Feeder.Present p.queue p.input p.feeder
  collector : p.collector.Inv sink₀ {} taken log before t.answered p.queue p.output
  atEnd : t.atEnd = true →
    p.feeder.result?.isSome = true ∧ p.input.content = [] ∧ t.taken = payloads published

section

variable {act : σ → Act σ} {Allowed : Pipeline σ → Transcript → Prop} {s₀ : Source}
  {sink₀ : Sink} {published : List Parcel} {taken : List Descriptor}
  {log : List (Message Descriptor)} {before : Bytes} {now : Nat} {s p p' : Pipeline σ}
  {t : Transcript}

theorem meetsEnd_iff (h : p.meetsEnd act = true) :
    p.input.readable = true ∧ p.input.content = [] ∧ p.input.writable = false := by
  unfold meetsEnd at h
  split at h
  · simpa [and_assoc] using h
  · simpa [and_assoc] using h
  · cases h

theorem inv_begin (source : Source) (flow : Flow) (child : Child σ) (sink : Sink)
    (inputCapacity outputCapacity : Nat) :
    (start source flow child sink { capacity := inputCapacity }
      { capacity := outputCapacity }).Inv source sink [] [] [] [] {} :=
  ⟨Feeder.inv_new source flow.flushEvery _ _, ⟨rfl, fun h => (by cases h)⟩,
    Collector.inv_start (q := Queue.new flow.capacity) (p := { capacity := outputCapacity })
      sink {} rfl rfl,
    fun h => (by cases h)⟩

theorem inv_feeder (hs : p.stepOf act now .feeder = some p')
    (h : p.Inv s₀ sink₀ published taken log before t) :
    ∃ published log, p'.Inv s₀ sink₀ published taken log before t := by
  obtain ⟨hf, hp, hc, hend⟩ := h
  obtain ⟨⟨f, q, i⟩, hstep, rfl⟩ := Option.map_eq_some_iff.mp hs
  obtain ⟨more, messages, part, he, hf'⟩ := Feeder.step_inv hstep hf
  refine ⟨published ++ more, log ++ messages, ?_, ?_, ?_, fun h => ?_⟩
  · rw [List.append_assoc, ← he.content] at hf'
    exact hf'
  · exact Feeder.present_step hstep hf hp
  · exact Collector.inv_queue hc he.heard he.waiting he.consuming
  · have := (hend h).1
    rw [Feeder.going_of_step hstep hf] at this
    cases this

theorem inv_child (hs : p.stepOf act now .child = some p')
    (h : p.Inv s₀ sink₀ published taken log before t) :
    p'.Inv s₀ sink₀ published taken log before (record act t p p' .child) := by
  obtain ⟨hf, hp, hc, hend⟩ := h
  obtain ⟨⟨c, i, o⟩, hstep, rfl⟩ := Option.map_eq_some_iff.mp hs
  obtain ⟨bytes, answered, he⟩ := Child.step_effect hstep
  rw [record_child he]
  refine ⟨?_, ⟨he.writable.trans hp.writable, hp.producing⟩, Collector.inv_output hc he.grows, ?_⟩
  · have hsent : t.taken ++ bytes ++ i.content = t.taken ++ p.input.content := by
      rw [he.content, List.append_assoc]
    rw [hsent]
    exact hf.mono id he.readable
  · intro h
    have hmeets : p.feeder.result?.isSome = true ∧ p.input.content = [] ∧
        t.taken = payloads published := by
      rcases Bool.or_eq_true_iff.mp h with h | h
      · exact hend h
      · -- The end of the input was met: the feeder has closed it, and nothing is left in it.
        obtain ⟨hr, hempty, hw⟩ := meetsEnd_iff h
        have hret : p.feeder.result?.isSome = true := by
          rw [hp.writable] at hw
          simpa using hw
        have hall := hf.sent_all hret hr
        rw [hempty, List.append_nil] at hall
        exact ⟨hret, hempty, hall⟩
    obtain ⟨hret, hempty, hall⟩ := hmeets
    have hcontent := he.content
    rw [hempty] at hcontent
    obtain ⟨hb, hi⟩ := List.append_eq_nil_iff.mp hcontent.symm
    exact ⟨hret, hi, by rw [hb, List.append_nil, hall]⟩

theorem inv_collector (hs : p.stepOf act now .collector = some p')
    (h : p.Inv s₀ sink₀ published taken log before t) :
    ∃ taken before, p'.Inv s₀ sink₀ published taken log before t := by
  obtain ⟨hf, hp, hc, hend⟩ := h
  obtain ⟨⟨c, q, o⟩, hstep, rfl⟩ := Option.map_eq_some_iff.mp hs
  have hframe := Collector.step_progress hstep hc.stream.line
  obtain ⟨taken', before', hc'⟩ := Collector.step_inv hstep hc
  refine ⟨taken', before', ?_, ?_, hc', hend⟩
  · exact hf.mono (fun _ => (hc.open (Collector.going_of_step hstep)).1) id
  · exact ⟨hp.writable, fun h => hframe.producing.trans (hp.producing h)⟩

theorem step_inv {actor : Actor} (hs : p.stepOf act now actor = some p')
    (h : p.Inv s₀ sink₀ published taken log before t) :
    ∃ published taken log before,
      p'.Inv s₀ sink₀ published taken log before (record act t p p' actor) := by
  cases actor with
  | feeder =>
    obtain ⟨published, log, h'⟩ := inv_feeder hs h
    exact ⟨published, taken, log, before, h'⟩
  | child => exact ⟨published, taken, log, before, inv_child hs h⟩
  | collector =>
    obtain ⟨taken, before, h'⟩ := inv_collector hs h
    exact ⟨published, taken, log, before, h'⟩

theorem reaches_inv (hr : Reaches act Allowed s p t)
    (h : s.Inv s₀ sink₀ published taken log before {}) :
    ∃ published taken log before, p.Inv s₀ sink₀ published taken log before t := by
  induction hr with
  | start => exact ⟨_, _, _, _, h⟩
  | step _ now actor hs _ ih =>
    obtain ⟨published, taken, log, before, hinv⟩ := ih
    exact step_inv hs hinv

/-- The capacities of the queue and the pipes stay as they are. -/
structure SameRoom (p p' : Pipeline σ) : Prop where
  queue : p'.queue.capacity = p.queue.capacity
  input : p'.input.capacity = p.input.capacity
  output : p'.output.capacity = p.output.capacity

theorem step_room {actor : Actor} (hs : p.stepOf act now actor = some p')
    (h : p.Inv s₀ sink₀ published taken log before t) : SameRoom p p' := by
  obtain ⟨hf, -, hc, -⟩ := h
  cases actor with
  | feeder =>
    obtain ⟨⟨f, q, i⟩, hstep, rfl⟩ := Option.map_eq_some_iff.mp hs
    obtain ⟨_, _, _, he, -⟩ := Feeder.step_inv hstep hf
    exact ⟨he.limit, he.capacity, rfl⟩
  | child =>
    obtain ⟨⟨c, i, o⟩, hstep, rfl⟩ := Option.map_eq_some_iff.mp hs
    obtain ⟨_, _, he⟩ := Child.step_effect hstep
    exact ⟨rfl, he.capacity, he.grows.capacity⟩
  | collector =>
    obtain ⟨⟨c, q, o⟩, hstep, rfl⟩ := Option.map_eq_some_iff.mp hs
    have he := Collector.step_progress hstep hc.stream.line
    exact ⟨he.limit, rfl, he.capacity⟩

theorem reaches_room (hr : Reaches act Allowed s p t)
    (h : s.Inv s₀ sink₀ published taken log before {}) : SameRoom s p := by
  induction hr with
  | start => exact ⟨rfl, rfl, rfl⟩
  | step hr now actor hs _ ih =>
    obtain ⟨_, _, _, _, hinv⟩ := reaches_inv hr h
    have hstep := step_room hs hinv
    exact ⟨hstep.queue.trans ih.queue, hstep.input.trans ih.input, hstep.output.trans ih.output⟩

end

theorem Reaches.allowed {act : σ → Act σ} {Allowed : Pipeline σ → Transcript → Prop}
    {s p : Pipeline σ} {t : Transcript} (hr : Reaches act Allowed s p t) : Allowed p t := by
  cases hr with
  | start h => exact h
  | step _ _ _ _ ha => exact ha

theorem Reaches.restrict {act : σ → Act σ} {Allowed : Pipeline σ → Transcript → Prop}
    {s p : Pipeline σ} {t : Transcript} (hr : Reaches act (fun _ _ => True) s p t)
    (h : ∀ p t, Reaches act (fun _ _ => True) s p t → Allowed p t) : Reaches act Allowed s p t := by
  induction hr with
  | start => exact .start (h _ _ (.start trivial))
  | step hr now actor hs _ ih => exact .step ih now actor hs (h _ _ (.step hr now actor hs trivial))

/-! ## Runs step by step -/

/-- Some order of steps leads to a state. -/
def Goes (act : σ → Act σ) (s p : Pipeline σ) : Prop :=
  ∃ t, Reaches act (fun _ _ => True) s p t

section

variable {act : σ → Act σ} {s p : Pipeline σ}

theorem Goes.refl (act : σ → Act σ) (s : Pipeline σ) : Goes act s s := ⟨{}, .start trivial⟩

theorem Goes.feeder {f : Feeder} {q : Queue Descriptor} {i : Pipe} (h : Goes act s p)
    (hs : p.feeder.step p.queue p.input = some (f, q, i)) :
    Goes act s { p with feeder := f, queue := q, input := i } := by
  obtain ⟨t, hr⟩ := h
  exact ⟨_, .step hr 0 .feeder (by rw [stepOf, hs]; rfl) trivial⟩

theorem Goes.child {c : Child σ} {i o : Pipe} (h : Goes act s p)
    (hs : p.child.step act 0 p.input p.output = some (c, i, o)) :
    Goes act s { p with child := c, input := i, output := o } := by
  obtain ⟨t, hr⟩ := h
  exact ⟨_, .step hr 0 .child (by rw [stepOf, hs]; rfl) trivial⟩

theorem Goes.collector {c : Collector} {q : Queue Descriptor} {o : Pipe} (h : Goes act s p)
    (hs : p.collector.step p.queue p.output = some (c, q, o)) :
    Goes act s { p with collector := c, queue := q, output := o } := by
  obtain ⟨t, hr⟩ := h
  exact ⟨_, .step hr 0 .collector (by rw [stepOf, hs]; rfl) trivial⟩

end

/-! ## A run by priorities -/

/-- Runs for so many steps: each is taken by the first of `order` that can. `none` when nobody can,
or when the child does what `ok` refuses. -/
def drive (act : σ → Act σ) (ok : Pipeline σ → Transcript → Bool) (order : List Actor) :
    Nat → Pipeline σ → Transcript → Option (Pipeline σ × Transcript)
  | 0, p, t => some (p, t)
  | n + 1, p, t =>
    match order.findSome? fun actor => (p.stepOf act 0 actor).map fun p' => (actor, p') with
    | none => none
    | some (actor, p') =>
      if ok p' (record act t p p' actor) then drive act ok order n p' (record act t p p' actor)
      else none

theorem reaches_drive {act : σ → Act σ} {Allowed : Pipeline σ → Transcript → Prop}
    {ok : Pipeline σ → Transcript → Bool} {order : List Actor} {n : Nat} {s p p' : Pipeline σ}
    {t t' : Transcript} (hok : ∀ p t, ok p t = true → Allowed p t)
    (hr : Reaches act Allowed s p t) (h : drive act ok order n p t = some (p', t')) :
    Reaches act Allowed s p' t' := by
  induction n generalizing p t with
  | zero =>
    cases h
    exact hr
  | succ n ih =>
    rw [drive] at h
    split at h
    · cases h
    · rename_i actor q hfirst
      split_ifs at h with hq
      obtain ⟨a, -, ha⟩ := List.exists_of_findSome?_eq_some hfirst
      obtain ⟨q', hstep, e⟩ := Option.map_eq_some_iff.mp ha
      cases e
      exact ih (.step hr 0 actor hstep (hok _ _ hq)) h

/-- A child that copies its input: it holds what it has read and not written yet, or is done. -/
def copy : Option Bytes → Act (Option Bytes)
  | some [] => .read 16 id
  | some bytes => .write bytes (some []) none
  | none => .exit 0

/-- A child that copies its input, at its start. -/
def copier : Child (Option Bytes) := { state := some [] }

theorem eq_ok_of_toOption {o : Option (Except Failure Nat)} {n : Nat}
    (h : o.bind Except.toOption = some n) : o = some (.ok n) := by
  cases o with
  | none => cases h
  | some r =>
    cases r with
    | ok m =>
      cases h
      rfl
    | error e => cases h

end Pipeline

end Coprocess
