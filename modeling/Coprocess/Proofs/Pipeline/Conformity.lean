import Coprocess.Proofs.Pipeline.Interleaving

/-!
# No false alarms

A child conforms when it begins the answer to a line only after it has read the line, answers each
line with one line, and closes its output only after it has answered everything up to the end of its
input. The feeder queues a descriptor before the child can see the lines of its unit, so that a
collector never finds output of a conforming child that no descriptor asks for.

* `Pipeline.Conforms`, and the weaker `Pipeline.Follows`, which lets a child begin the answer to a
  line of which it has read a part;
* `Pipeline.Inv.answered_le`: such a child has not answered more than what is published;
* **`Pipeline.no_false_alarm`**: a collector never blames a conforming child.
-/

namespace Coprocess.Pipeline

open Descriptor (demands)

variable {σ : Type}

/-- What a child has read, written and closed so far conforms. -/
structure Conforms (p : Pipeline σ) (t : Transcript) : Prop where
  /-- A line of output is begun after its line of input was read. -/
  answers : (lines t.answered).length ≤ countLf t.taken
  /-- The output is closed when the end of the input was met and every line has its answer. -/
  closing : p.output.writable = false →
    t.atEnd = true ∧ (lines t.answered).length = countLf t.taken

instance (p : Pipeline σ) (t : Transcript) : Decidable (Conforms p t) :=
  decidable_of_iff
    ((if Terminated t.answered then countLf t.answered else countLf t.answered + 1) ≤
        countLf t.taken ∧
      (p.output.writable = false → t.atEnd = true ∧
        (if Terminated t.answered then countLf t.answered else countLf t.answered + 1) =
          countLf t.taken))
    (by rw [← length_lines]; exact ⟨fun h => ⟨h.1, h.2⟩, fun h => ⟨h.1, h.2⟩⟩)

/-- A child that begins no answer before it has read some of its line, and closes its output only
when it has met the end of its input and has begun an answer to every line. -/
structure Follows (p : Pipeline σ) (t : Transcript) : Prop where
  answers : (lines t.answered).length ≤ (lines t.taken).length
  closing : p.output.writable = false →
    t.atEnd = true ∧ countLf t.taken ≤ (lines t.answered).length

theorem Conforms.follows {p : Pipeline σ} {t : Transcript} (h : Conforms p t) : Follows p t :=
  ⟨h.answers.trans (countLf_le_length_lines t.taken),
    fun hw => ⟨(h.closing hw).1, (h.closing hw).2.ge⟩⟩

section

variable {kind : Source.Kind} {input : Bytes} {sink₀ : Sink} {published : List Parcel}
  {taken : List Descriptor} {log : List (Message Descriptor)} {before : Bytes} {p : Pipeline σ}
  {t : Transcript}

theorem Inv.sum_published (h : p.Inv { kind, input } sink₀ published taken log before t) :
    Terminated (payloads published) ∧
      (demands (descriptors published) {}).sum = countLf (payloads published) := by
  obtain ⟨⟨rest, hp⟩, -, -⟩ := h.feeder.announced
  exact Source.sum_demands hp.symm Source.keyed_nil

/-- What a child has answered that follows its input was asked for by published descriptors. -/
theorem Inv.answered_le (h : p.Inv { kind, input } sink₀ published taken log before t)
    (hc : Follows p t) :
    (lines t.answered).length ≤ (demands (descriptors published) {}).sum := by
  obtain ⟨-, ⟨unsent, hsent⟩, -⟩ := h.feeder.announced
  obtain ⟨hwhole, hsum⟩ := h.sum_published
  have hle := length_lines_le t.taken (p.input.content ++ unsent)
  rw [← List.append_assoc, hsent, length_lines_of_terminated hwhole, ← hsum] at hle
  exact hc.answers.trans hle

/-- If all published descriptors were taken, nothing that such a child has written is left unread
after their units. -/
theorem Inv.unread_eq_nil (h : p.Inv { kind, input } sink₀ published taken log before t)
    (hc : Follows p t) {slots : Slots}
    (hb : Collector.Built {} taken (lines before) slots) (ht : taken = descriptors published) :
    p.collector.reader.unread p.output = [] := by
  by_contra hu
  have hlt := h.collector.stream.length_lt hu []
  have hle := h.answered_le hc
  rw [List.append_nil, ← hb.lines, ht] at hlt
  omega

theorem Inv.log_eq (h : p.Inv { kind, input } sink₀ published taken log before t) :
    ∃ tail, log = items published ++ tail ∧ ∀ m ∈ tail, m = .finished := by
  obtain ⟨-, -, hl | ⟨hl, -⟩⟩ := h.feeder.announced
  · exact ⟨[], by rw [hl, List.append_nil], by simp⟩
  · exact ⟨[.finished], hl, by simp⟩

/-- Every line of the published units has an answer when such a child closes its output. -/
theorem Inv.under_absurd (h : p.Inv { kind, input } sink₀ published taken log before t)
    (hc : Follows p t) {k : Nat} :
    p.collector.result? ≠ some (.error (.underProduction k)) := by
  intro hr
  obtain ⟨⟨d, missing, ls, hp⟩, -, hend, hpre⟩ := h.collector.verdict hr
  obtain ⟨hmet, hge⟩ := hc.closing hend.1
  obtain ⟨-, -, hall⟩ := h.atEnd hmet
  obtain ⟨tail, hlog, ht⟩ := h.log_eq
  rw [hlog] at hpre
  obtain ⟨rest, hrest⟩ := prefix_of_items hpre ht
  have hlt := hp.lt
  have hle : (demands taken {}).sum ≤ (demands (descriptors published) {}).sum := by
    rw [← hrest, Descriptor.demands_append taken rest [], List.sum_append]
    omega
  rw [h.sum_published.2, ← hall] at hle
  rw [h.collector.stream.of_atEnd hend] at hge
  omega

theorem Inv.over_absurd (h : p.Inv { kind, input } sink₀ published taken log before t)
    (hc : Follows p t) {k : Nat} :
    p.collector.result? ≠ some (.error (.overProduction k)) := by
  intro hr
  obtain ⟨hb, -, -, hu, hlog'⟩ := h.collector.verdict hr
  obtain ⟨tail, hlog, ht⟩ := h.log_eq
  rw [hlog] at hlog'
  rcases hlog' with ⟨hl, -⟩ | hl
  · exact hu (h.unread_eq_nil hc hb (eq_of_items hl ht).1)
  · exact hu (h.unread_eq_nil hc hb (eq_of_finished hl ht).1)

/-- Output that is found after the queue was seen empty belongs to a descriptor that is queued by
now. -/
theorem Inv.confirming (h : p.Inv { kind, input } sink₀ published taken log before t)
    (hc : Follows p t) (hp : p.collector.phase = .confirming) :
    ∃ d rest, p.queue.waiting.toList = .item d :: rest := by
  obtain ⟨-, -, hst, -, -⟩ := h.collector
  unfold Collector.Stage at hst
  simp only [hp] at hst
  obtain ⟨⟨hb, -, -⟩, hlog', -, hu⟩ := hst
  obtain ⟨tail, hlog, ht⟩ := h.log_eq
  rw [hlog] at hlog'
  cases hw : p.queue.waiting.toList with
  | nil =>
    rw [hw, List.append_nil] at hlog'
    exact absurd (h.unread_eq_nil hc hb (eq_of_items hlog' ht).1) hu
  | cons m rest =>
    cases m with
    | item d => exact ⟨d, rest, rfl⟩
    | finished =>
      have hpre : taken.map .item ++ [.finished] <+: items published ++ tail := by
        rw [hlog', hw]
        exact ⟨rest, by simp⟩
      exact absurd (h.unread_eq_nil hc hb (eq_of_finished hpre ht).1) hu

end

/-- **No false alarm.** For every source, also one that fails midway, and every order of steps, a
collector never finds that a conforming child has written too little or too much. When it finds
output after it has seen the queue empty, a descriptor is queued by then. -/
theorem no_false_alarm {act : σ → Act σ} (kind : Source.Kind) (input : Bytes) (flow : Flow)
    (child : Child σ) (sink : Sink) (inputCapacity outputCapacity : Nat) {p : Pipeline σ}
    {t : Transcript}
    (hr : Reaches act Conforms (start { kind, input } flow child sink
      { capacity := inputCapacity } { capacity := outputCapacity }) p t) :
    (∀ k, p.collector.result? ≠ some (.error (.underProduction k))) ∧
      (∀ k, p.collector.result? ≠ some (.error (.overProduction k))) ∧
      (p.collector.phase = .confirming →
        ∃ d rest, p.queue.waiting.toList = .item d :: rest) := by
  obtain ⟨published, taken, log, before, h⟩ :=
    reaches_inv hr (inv_begin { kind, input } flow child sink inputCapacity outputCapacity)
  have hc := hr.allowed.follows
  exact ⟨fun _ => h.under_absurd hc, fun _ => h.over_absurd hc, h.confirming hc⟩

/-- The answer to a second line comes while the collector waits at an empty queue. -/
theorem no_false_alarm_late :
    ∃ p t, Reaches copy Conforms (start { kind := .cache {}, input := [97, lf, 98, lf] }
        { flushEvery := 1 } copier {} { capacity := 4 } { capacity := 4 }) p t ∧
      p.collector.phase = .confirming ∧ ∃ d rest, p.queue.waiting.toList = .item d :: rest := by
  let s := start { kind := .cache {}, input := [97, lf, 98, lf] } { flushEvery := 1 } copier {}
    { capacity := 4 } { capacity := 4 }
  have hrun : (drive copy (fun p t => decide (Conforms p t)) [.collector, .child, .feeder] 21 s
      {}).any (fun pt => match pt.1.collector.phase with
        | .confirming => true
        | _ => false) = true := by
    decide +kernel
  rw [Option.any_eq_true] at hrun
  obtain ⟨⟨p, t⟩, hd, he⟩ := hrun
  have hp : p.collector.phase = .confirming := by
    cases hp : p.collector.phase with
    | confirming => rfl
    | consuming | gathering | watching | peeking | closing | returned => simp [hp] at he
  have hr := reaches_drive (fun _ _ h => of_decide_eq_true h) (.start (by decide +kernel)) hd
  obtain ⟨-, -, hq⟩ := no_false_alarm (.cache {}) [97, lf, 98, lf] _ _ _ _ _ hr
  exact ⟨p, t, hr, hp, hq hp⟩

end Coprocess.Pipeline
