import Coprocess.Proofs.Pipeline.Conformity

/-!
# Deadlock

A child streams when it conforms and never waits for input with a line unanswered. Before such a
child a pipeline gets stuck in one way only: the collector has seen the queue empty and waits for
output, while the feeder fills the queue with units that send nothing and waits for room in it.

* `Pipeline.Streams`, `Pipeline.Waits`, `Pipeline.Stuck`;
* **`Pipeline.stuck_repeats`**: in a stuck state the queue is full of repeats;
* `Pipeline.RepeatsInARow`, **`Pipeline.repeats_of_stuck`**: which inputs can get a pipeline stuck.
-/

namespace Coprocess.Pipeline

open Descriptor (demands)

variable {σ : Type}

/-- A child that conforms, and waits only for room in its output, or for input when it has answered
all lines with lines, or after it has closed its output. -/
structure Streams (act : σ → Act σ) (p : Pipeline σ) (t : Transcript) : Prop
    extends Conforms p t where
  prompt : (∀ now, p.stepOf act now .child = none) →
    (p.output.readable = true ∧ p.output.room = 0) ∨
      (p.input.content = [] ∧ p.input.writable = true ∧ countLf t.answered = countLf t.taken) ∨
      p.output.writable = false

/-- A child that cannot take a step waits for room in its output, or for input when it is ready to,
or it has closed its output. -/
def Waits (act : σ → Act σ) (p : Pipeline σ) (ready : Prop) : Prop :=
  (∀ now, p.stepOf act now .child = none) →
    (p.output.readable = true ∧ p.output.room = 0) ∨
      (p.input.content = [] ∧ p.input.writable = true ∧ ready) ∨
      p.output.writable = false

/-- The feeder or the collector has not returned, but nobody can take a step, now or later. -/
def Stuck (act : σ → Act σ) (p : Pipeline σ) : Prop :=
  (p.feeder.result? = none ∨ p.collector.result? = none) ∧
    ∀ now actor, p.stepOf act now actor = none

section

variable {act : σ → Act σ} {kind : Source.Kind} {input : Bytes} {sink₀ : Sink}
  {published : List Parcel} {taken : List Descriptor} {log : List (Message Descriptor)}
  {before : Bytes} {p : Pipeline σ} {t : Transcript} {ready : Prop}

/-! ## Why each of them waits -/

theorem room_ne_zero {i : Pipe} (hc : 0 < i.capacity) (he : i.content = []) : i.room ≠ 0 := by
  have : i.bytes.size = 0 := by simpa [Pipe.content] using he
  rw [Pipe.room, this]
  omega

theorem Stuck.feeder (h : Stuck act p)
    (hinv : p.Inv { kind, input } sink₀ published taken log before t) :
    p.feeder.result?.isSome = true ∨
      (p.feeder.writer.backlog ≠ [] ∧ p.input.room = 0) ∨
      (p.queue.isFull = true ∧ p.queue.consuming = true ∧
        t.taken ++ p.input.content = payloads published ∧ log = items published) := by
  have hs := h.2 0 .feeder
  exact hinv.feeder.step_none (Option.map_eq_none_iff.mp hs)

theorem Stuck.collector (h : Stuck act p)
    (hinv : p.Inv { kind, input } sink₀ published taken log before t) :
    p.collector.result?.isSome = true ∨
      (p.collector.phase = .consuming ∧ p.queue.waiting.toList = [] ∧
        p.queue.producing = true) ∨
      ((p.collector.phase = .peeking ∨ p.collector.phase = .closing ∨
          ∃ d missing ls, p.collector.phase = .gathering d (missing + 1) ls) ∧
        p.collector.reader.buffer = [] ∧ p.output.content = [] ∧ p.output.writable = true) := by
  have hs := h.2 0 .collector
  exact Collector.step_none (Option.map_eq_none_iff.mp hs) hinv.collector.stream.line

theorem Inv.gone_of_closed (hinv : p.Inv { kind, input } sink₀ published taken log before t)
    (hc : Follows p t) (hw : p.output.writable = false) : p.feeder.result?.isSome = true :=
  (hinv.atEnd (hc.closing hw).1).1

theorem Inv.answered_eq_nil (hinv : p.Inv { kind, input } sink₀ published [] log before t)
    (hc : Follows p t) (hl : log = []) : t.answered = [] := by
  obtain ⟨tail, hlog, -⟩ := hinv.log_eq
  have hp : published = [] := by
    rw [hl] at hlog
    simpa using (List.append_eq_nil_iff.mp hlog.symm).1
  have hle := hinv.answered_le hc
  rw [hp] at hle
  exact lines_eq_nil_iff.mp (List.length_eq_zero_iff.mp (Nat.le_zero.mp hle))

/-- A child never waits for room in its output: the collector would read it. -/
theorem Stuck.output_read (h : Stuck act p)
    (hinv : p.Inv { kind, input } sink₀ published taken log before t) (hc : Follows p t)
    (ho : 0 < p.output.capacity) : ¬ (p.output.readable = true ∧ p.output.room = 0) := by
  rintro ⟨hr, hroom⟩
  have hcontent : p.output.content ≠ [] := fun he => room_ne_zero ho he hroom
  rcases h.collector hinv with hret | ⟨hph, hw, -⟩ | ⟨-, -, he, -⟩
  · rw [hinv.collector.readable] at hr
    cases hres : p.collector.result? <;> simp [hres] at hr hret
  · have hst := hinv.collector.stage
    unfold Collector.Stage at hst
    simp only [hph] at hst
    obtain ⟨-, hlog, rfl | hne | hend⟩ := hst
    · rw [hw] at hlog
      have hbytes := hinv.collector.stream.bytes
      rw [hinv.answered_eq_nil hc hlog, LineReader.unread] at hbytes
      have := List.append_eq_nil_iff.mp (List.append_eq_nil_iff.mp hbytes.symm).2
      exact hcontent this.2
    · exact hne hw
    · have := hend.2
      rw [LineReader.unread] at this
      exact hcontent (List.append_eq_nil_iff.mp this).2
  · exact hcontent he

theorem Stuck.child_waits (h : Stuck act p)
    (hinv : p.Inv { kind, input } sink₀ published taken log before t) (hc : Follows p t)
    (hw : Waits act p ready) (ho : 0 < p.output.capacity) :
    p.input.content = [] ∧ p.feeder.result? = none ∧ ready := by
  rcases hw fun now => h.2 now .child with hfull | ⟨he, hw, hready⟩ | hclosed
  · exact absurd hfull (h.output_read hinv hc ho)
  · refine ⟨he, ?_, hready⟩
    rw [hinv.present.writable] at hw
    simpa using hw
  · exfalso
    have hgone := hinv.gone_of_closed hc hclosed
    rcases h.collector hinv with hret | ⟨-, -, hp⟩ | ⟨-, -, -, hw⟩
    · rcases h.1 with hn | hn
      · rw [hn] at hgone
        cases hgone
      · rw [hn] at hret
        cases hret
    · rw [hinv.present.producing hgone] at hp
      cases hp
    · rw [hclosed] at hw
      cases hw

/-- In a stuck state the feeder waits for room in the queue, and all it has announced is sent. -/
theorem Stuck.feeder_waits (h : Stuck act p)
    (hinv : p.Inv { kind, input } sink₀ published taken log before t) (hc : Follows p t)
    (hw : Waits act p ready) (hi : 0 < p.input.capacity) (ho : 0 < p.output.capacity) :
    p.queue.isFull = true ∧ p.queue.consuming = true ∧ t.taken = payloads published ∧
      log = items published := by
  obtain ⟨he, hn, -⟩ := h.child_waits hinv hc hw ho
  rcases h.feeder hinv with hret | ⟨-, hroom⟩ | ⟨hf, hc, hsent, hlog⟩
  · rw [hn] at hret
    cases hret
  · exact absurd hroom (room_ne_zero hi he)
  · rw [he, List.append_nil] at hsent
    exact ⟨hf, hc, hsent, hlog⟩

theorem Stuck.length_read (h : Stuck act p)
    (hinv : p.Inv { kind, input } sink₀ published taken log before t) (hc : Follows p t)
    (hw : Waits act p (countLf t.answered = countLf t.taken)) (hi : 0 < p.input.capacity)
    (ho : 0 < p.output.capacity) (hb : p.collector.reader.buffer = [])
    (hcontent : p.output.content = []) :
    (lines before).length = countLf (payloads published) := by
  obtain ⟨-, -, hcount⟩ := h.child_waits hinv hc hw ho
  obtain ⟨-, -, hsent, -⟩ := h.feeder_waits hinv hc hw hi ho
  have hle := hinv.answered_le hc
  have hbytes := hinv.collector.stream.bytes
  rw [hinv.sum_published.2, ← hsent] at hle
  rw [LineReader.unread, hb, hcontent, List.append_nil, List.append_nil] at hbytes
  -- As many line feeds as lines: the last line that was written is complete.
  have hterm : Terminated t.answered := by
    by_contra hn
    rw [length_lines, if_neg hn] at hle
    omega
  have hline : p.collector.reader.line = [] := by
    by_contra hne
    rcases hterm with ht | ht
    · rw [ht] at hbytes
      exact hne (List.append_eq_nil_iff.mp hbytes.symm).2
    · rw [hbytes, List.getLast?_append_of_ne_nil _ hne] at ht
      exact hinv.collector.stream.line (List.mem_of_getLast? ht)
  rw [hline, List.append_nil] at hbytes
  rw [← hbytes, length_lines_of_terminated hterm, hcount, hsent]

/-- In a stuck state the collector waits for output that no unit in the queue asks for. -/
theorem Stuck.collector_peeks (h : Stuck act p)
    (hinv : p.Inv { kind, input } sink₀ published taken log before t) (hc : Follows p t)
    (hw : Waits act p (countLf t.answered = countLf t.taken)) (hi : 0 < p.input.capacity)
    (ho : 0 < p.output.capacity) (hq : ∀ n, p.queue.capacity = some n → 0 < n) :
    items published = taken.map .item ++ p.queue.waiting.toList ∧
      (demands taken {}).sum = countLf (payloads published) := by
  obtain ⟨hfull, hcon, -, hlog⟩ := h.feeder_waits hinv hc hw hi ho
  rcases h.collector hinv with hret | ⟨-, hempty, -⟩ | ⟨hph, hb, hcontent, -⟩
  · rw [hinv.collector.consuming] at hcon
    cases hres : p.collector.result? <;> simp [hres] at hcon hret
  · obtain ⟨n, hn, hle⟩ := Queue.isFull_iff.mp hfull
    have := hq n hn
    rw [hempty] at hle
    exact absurd hle (by simp; omega)
  have hread := h.length_read hinv hc hw hi ho hb hcontent
  have hst := hinv.collector.stage
  unfold Collector.Stage at hst
  rcases hph with hph | hph | ⟨d, missing, ls, hph⟩
  · simp only [hph] at hst
    obtain ⟨⟨hbuilt, -, -⟩, hlog', -⟩ := hst
    exact ⟨hlog ▸ hlog', hbuilt.lines.trans hread⟩
  · simp only [hph] at hst
    have hmem : Message.finished ∈ items published := by
      rw [← hlog, hst.2]
      simp
    simp at hmem
  · simp only [hph] at hst
    obtain ⟨hpart, hlog', -⟩ := hst
    have hlt := hpart.lt
    have hpre : taken.map .item <+: items published ++ [] :=
      ⟨p.queue.waiting.toList, by rw [List.append_nil, ← hlog', hlog]⟩
    obtain ⟨rest, hrest⟩ := prefix_of_items hpre (by simp)
    have hle : (demands taken {}).sum ≤ (demands (descriptors published) {}).sum := by
      rw [← hrest, Descriptor.demands_append taken rest [], List.sum_append]
      omega
    rw [hinv.sum_published.2] at hle
    omega

/-- **In a stuck state the queue is full of repeats**: of units that send nothing to the child. -/
theorem stuck_repeats (h : Stuck act p)
    (hinv : p.Inv { kind, input } sink₀ published taken log before t) (hc : Follows p t)
    (hw : Waits act p (countLf t.answered = countLf t.taken)) (hi : 0 < p.input.capacity)
    (ho : 0 < p.output.capacity) (hq : ∀ n, p.queue.capacity = some n → 0 < n) :
    ∃ n front repeats, p.queue.capacity = some n ∧ published = front ++ repeats ∧
      n ≤ repeats.length ∧ ∀ r ∈ repeats, r.payload = [] := by
  obtain ⟨hfull, -, -, -⟩ := h.feeder_waits hinv hc hw hi ho
  obtain ⟨hitems, hsum⟩ := h.collector_peeks hinv hc hw hi ho hq
  obtain ⟨n, hn, hle⟩ := Queue.isFull_iff.mp hfull
  have hpre : taken.map .item <+: items published ++ [] :=
    ⟨p.queue.waiting.toList, by rw [List.append_nil, hitems]⟩
  have htaken := List.prefix_iff_eq_take.mp (prefix_of_items hpre (by simp))
  rw [← List.map_take] at htaken
  obtain ⟨front, repeats, rfl, rfl⟩ : ∃ front repeats, published = front ++ repeats ∧
      taken = descriptors front :=
    ⟨published.take taken.length, published.drop taken.length,
      (List.take_append_drop taken.length published).symm, htaken⟩
  obtain ⟨⟨rest, hrest⟩, -, -⟩ := hinv.feeder.announced
  refine ⟨n, front, repeats, hn, rfl, ?_, ?_⟩
  · have hlen := congrArg List.length hitems
    simp only [List.length_map, List.length_append] at hlen
    omega
  · have hsource : Source.parcels { kind, input } = front ++ (repeats ++ rest) := by
      rw [← List.append_assoc, hrest]
    obtain ⟨-, hfront⟩ := Source.sum_demands hsource Source.keyed_nil
    obtain ⟨hall, -⟩ := Source.sum_demands hrest.symm Source.keyed_nil
    rw [payloads_append] at hsum hall
    rw [countLf_append] at hsum
    have hnil : payloads repeats = [] := hall.eq_nil_of_countLf (by omega)
    exact fun r hr => List.flatMap_eq_nil_iff.mp hnil r hr

end

/-! ## Repeats in a row -/

/-- So many parcels in a row send nothing. -/
def RepeatsInARow (ps : List Parcel) (n : Nat) : Prop :=
  ∃ front repeats back, ps = front ++ repeats ++ back ∧ repeats.length = n ∧
    ∀ r ∈ repeats, r.payload = []

section

variable {act : σ → Act σ} {Allowed : Pipeline σ → Transcript → Prop} {kind : Source.Kind}
  {input : Bytes} {flow : Flow} {child : Child σ} {sink : Sink} {inputCapacity outputCapacity : Nat}
  {p : Pipeline σ} {t : Transcript} {ready : Prop}

theorem bounded_of_stuck (hi : 0 < inputCapacity) (ho : 0 < outputCapacity)
    (hr : Reaches act Allowed (start { kind, input } flow child sink
      { capacity := inputCapacity } { capacity := outputCapacity }) p t)
    (hc : Follows p t) (hw : Waits act p ready) (h : Stuck act p) :
    ∃ n, flow.capacity = some n := by
  have hbegin := inv_begin { kind, input } flow child sink inputCapacity outputCapacity
  obtain ⟨published, taken, log, before, hinv⟩ := reaches_inv hr hbegin
  obtain ⟨hqueue, hinput, houtput⟩ := reaches_room hr hbegin
  have hcapacity : p.queue.capacity = flow.capacity.map (max 1) := hqueue
  obtain ⟨hfull, -⟩ := h.feeder_waits hinv hc hw (hinput ▸ hi) (houtput ▸ ho)
  obtain ⟨n, hn, -⟩ := Queue.isFull_iff.mp hfull
  rw [hcapacity] at hn
  obtain ⟨m, hm, -⟩ := Option.map_eq_some_iff.mp hn
  exact ⟨m, hm⟩

/-- With every line answered it gets stuck only on as many repeats in a row as the queue holds. -/
theorem row_of_stuck (hi : 0 < inputCapacity) (ho : 0 < outputCapacity)
    (hr : Reaches act Allowed (start { kind, input } flow child sink
      { capacity := inputCapacity } { capacity := outputCapacity }) p t)
    (hc : Follows p t) (hw : Waits act p (countLf t.answered = countLf t.taken))
    (h : Stuck act p) :
    ∃ n, flow.capacity = some n ∧ RepeatsInARow (Source.parcels { kind, input }) (max 1 n) := by
  have hbegin := inv_begin { kind, input } flow child sink inputCapacity outputCapacity
  obtain ⟨published, taken, log, before, hinv⟩ := reaches_inv hr hbegin
  obtain ⟨hqueue, hinput, houtput⟩ := reaches_room hr hbegin
  have hcapacity : p.queue.capacity = flow.capacity.map (max 1) := hqueue
  obtain ⟨n, front, repeats, hn, rfl, hle, hrep⟩ := stuck_repeats h hinv hc hw (hinput ▸ hi)
    (houtput ▸ ho) (fun n hn => by
      rw [hcapacity] at hn
      obtain ⟨m, -, rfl⟩ := Option.map_eq_some_iff.mp hn
      omega)
  rw [hcapacity] at hn
  obtain ⟨m, hm, rfl⟩ := Option.map_eq_some_iff.mp hn
  obtain ⟨⟨rest, hrest⟩, -, -⟩ := hinv.feeder.announced
  refine ⟨m, hm, front, repeats.take (max 1 m), repeats.drop (max 1 m) ++ rest, ?_, ?_, ?_⟩
  · have hsplit := List.take_append_drop (max 1 m) repeats
    rw [← hrest, List.append_assoc front (repeats.take _), ← List.append_assoc (repeats.take _),
      hsplit, List.append_assoc]
  · exact List.length_take_of_le hle
  · exact fun r hr => hrep r (List.mem_of_mem_take hr)

theorem cause_of_stuck (hi : 0 < inputCapacity) (ho : 0 < outputCapacity)
    (hr : Reaches act Allowed (start { kind, input } flow child sink
      { capacity := inputCapacity } { capacity := outputCapacity }) p t)
    (hc : Follows p t) (hw : Waits act p True) (h : Stuck act p) :
    ∃ n, flow.capacity = some n ∧ (countLf t.answered ≠ countLf t.taken ∨
      RepeatsInARow (Source.parcels { kind, input }) (max 1 n)) := by
  by_cases hcount : countLf t.answered = countLf t.taken
  · have hready : Waits act p (countLf t.answered = countLf t.taken) := by
      simpa only [Waits, hcount] using hw
    obtain ⟨n, hn, hrow⟩ := row_of_stuck hi ho hr hc hready h
    exact ⟨n, hn, .inr hrow⟩
  · obtain ⟨n, hn⟩ := bounded_of_stuck hi ho hr hc hw h
    exact ⟨n, hn, .inl hcount⟩

end

/-- **A pipeline before a streaming child gets stuck only on as many repeats in a row as the queue
holds.** -/
theorem repeats_of_stuck {act : σ → Act σ} (kind : Source.Kind) (input : Bytes) (flow : Flow)
    (child : Child σ) (sink : Sink) {inputCapacity outputCapacity : Nat} (hi : 0 < inputCapacity)
    (ho : 0 < outputCapacity) {p : Pipeline σ} {t : Transcript}
    (hr : Reaches act (Streams act) (start { kind, input } flow child sink
      { capacity := inputCapacity } { capacity := outputCapacity }) p t) (h : Stuck act p) :
    ∃ n, flow.capacity = some n ∧ RepeatsInARow (Source.parcels { kind, input }) (max 1 n) :=
  row_of_stuck hi ho hr hr.allowed.follows hr.allowed.prompt h

end Coprocess.Pipeline
