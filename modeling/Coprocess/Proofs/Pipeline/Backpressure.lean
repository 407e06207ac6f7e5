import Coprocess.Proofs.Pipeline.StreamingChild

/-!
# Backpressure

A feeder waits for room in the queue only after it has flushed what it holds. When every unit sends
something, the child has then a line to answer for each unit in the queue, and the collector an
answer to wait for, so that somebody can always go on.

* `Pipeline.not_repeatsInARow`: without a cache there are no repeats;
* **`Pipeline.never_stuck`**: backpressure alone never brings a pipeline to a standstill.
-/

namespace Coprocess.Pipeline

variable {σ : Type}

theorem not_repeatsInARow {s : Source} (hk : s.kind.Sends) {n : Nat} (hn : 0 < n) :
    ¬ RepeatsInARow s.parcels n := by
  rintro ⟨front, repeats, back, hall, hlen, hrep⟩
  rw [← hlen] at hn
  obtain ⟨r, hr⟩ := List.exists_mem_of_ne_nil repeats (List.ne_nil_of_length_pos hn)
  have hmem : r ∈ s.parcels := by
    rw [hall, List.append_assoc]
    exact List.mem_append_right front (List.mem_append_left back hr)
  exact Source.payload_ne_nil hk r hmem (hrep r hr)

/-- **Backpressure alone never brings a pipeline to a standstill.** When every line is sent to a
streaming child, whatever the queue and the pipes hold and however seldom the feeder flushes, after
any order of steps somebody can take a step, unless the feeder and the collector have returned. -/
theorem never_stuck {act : σ → Act σ} {kind : Source.Kind} (hk : kind.Sends) (input : Bytes)
    (flow : Flow) (child : Child σ) (sink : Sink) {inputCapacity outputCapacity : Nat}
    (hi : 0 < inputCapacity) (ho : 0 < outputCapacity) {p : Pipeline σ} {t : Transcript}
    (hr : Reaches act (Streams act) (start { kind, input } flow child sink
      { capacity := inputCapacity } { capacity := outputCapacity }) p t)
    (hgoing : p.feeder.result? = none ∨ p.collector.result? = none) :
    ∃ now actor p', p.stepOf act now actor = some p' := by
  by_contra hnone
  have hstuck : Stuck act p := by
    refine ⟨hgoing, fun now actor => ?_⟩
    by_contra hsome
    obtain ⟨p', hp'⟩ := Option.ne_none_iff_exists'.mp hsome
    exact hnone ⟨now, actor, p', hp'⟩
  obtain ⟨n, -, hrep⟩ := repeats_of_stuck kind input flow child sink hi ho hr hstuck
  have hone : 0 < max 1 n := Nat.lt_of_lt_of_le Nat.one_pos (Nat.le_max_left 1 n)
  exact not_repeatsInARow (s := { kind, input }) hk hone hrep

/-- A line in pieces, pipes for one byte and a queue for one unit: the feeder and the child wait,
and the collector can go on. -/
theorem never_stuck_narrow :
    ∃ p t, Reaches (clerk 1) (Streams (clerk 1))
        (start { kind := .fold { width := 1 }, input := [97, 98, 99, lf, 100] }
          { flushEvery := 1, capacity := some 1 } { state := some 0 } {} { capacity := 1 }
          { capacity := 1 }) p t ∧
      p.stepOf (clerk 1) 0 .feeder = none ∧ p.stepOf (clerk 1) 0 .child = none ∧
      p.feeder.result? = none ∧ ∃ now actor p', p.stepOf (clerk 1) now actor = some p' := by
  let s := start { kind := .fold { width := 1 }, input := [97, 98, 99, lf, 100] }
    { flushEvery := 1, capacity := some 1 } ({ state := some 0 } : Child (Option Nat)) {}
    { capacity := 1 } { capacity := 1 }
  have hrun : (drive (clerk 1) (fun _ _ => true) [.feeder, .child] 15 s {}).any (fun pt =>
      (pt.1.stepOf (clerk 1) 0 .feeder).isNone && (pt.1.stepOf (clerk 1) 0 .child).isNone &&
        pt.1.feeder.result?.isNone) = true := by
    decide +kernel
  rw [Option.any_eq_true] at hrun
  obtain ⟨⟨p, t⟩, hd, he⟩ := hrun
  simp only [Bool.and_eq_true, Option.isNone_iff_eq_none] at he
  obtain ⟨⟨hf, hc⟩, hgoing⟩ := he
  have hreach := reaches_drive (fun _ _ _ => trivial) (.start trivial) hd
  obtain ⟨-, hr⟩ := streams_clerk hreach (inv_begin _ _ _ _ _ _)
    ⟨by simp, rfl, rfl, rfl, rfl, Nat.zero_le _, Nat.le_refl _, rfl⟩
  have hk : (Source.Kind.fold { width := 1 }).Sends := trivial
  refine ⟨p, t, hr, hf, hc, hgoing, ?_⟩
  exact never_stuck hk _ _ _ _ Nat.one_pos Nat.one_pos hr (.inl hgoing)

end Coprocess.Pipeline
