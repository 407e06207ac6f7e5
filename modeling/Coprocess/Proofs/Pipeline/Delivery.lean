import Coprocess.Proofs.Pipeline.Interleaving

/-!
# Delivery

Whatever the order of steps, the queue's capacity, the pipes' capacities and the flushes, a feeder
and a collector that both succeed have passed on every unit, in order.

* `Source.outputFrom`: the output that the lines of a child make of the units of a source;
* **`Pipeline.delivery`**: what has been sent, answered and written when both succeed.
-/

namespace Coprocess

/-- What the units of a source come to on a sink of this format when a child answers these bytes:
each unit is made of the next lines that it asks for, one that repeats a line of none. -/
def Source.outputFrom (s : Source) (format : Sink.Format) (answered : Bytes) : Bytes :=
  ((Descriptor.assembleAll (descriptors s.parcels) (lines answered) {}).1.map
    (Sink.render format)).flatten

namespace Pipeline

variable {σ : Type} {act : σ → Act σ} {Allowed : Pipeline σ → Transcript → Prop}

/-- **A collector that succeeds** has taken the descriptors of all parcels, and has made their units
of all that the child has answered. -/
theorem Inv.collected {source : Source} {sink : Sink} {published : List Parcel}
    {taken : List Descriptor} {log : List (Message Descriptor)} {before : Bytes} {p : Pipeline σ}
    {t : Transcript} {n : Nat} (h : p.Inv source sink published taken log before t)
    (hn : p.collector.result? = some (.ok n)) :
    source.fault? = none ∧ n = source.parcels.length ∧
      t.taken ++ p.input.content = payloads source.parcels ∧
      (Descriptor.demands (descriptors source.parcels) {}).sum = (lines t.answered).length ∧
      p.collector.sink.outlet.written =
        sink.outlet.written ++ source.outputFrom sink.format t.answered := by
  obtain ⟨hb, ⟨s, hs, he⟩, rfl, hend, hpre⟩ := h.collector.verdict hn
  -- The end marker was taken, so that it was queued, and all descriptors before it.
  rcases h.feeder.announced with ⟨-, -, hlog | ⟨hlog, rfl, hfault, hsent⟩⟩
  · have hfinished : Message.finished ∈ log := hpre.subset (by simp)
    rw [hlog] at hfinished
    simp at hfinished
  · rw [hlog] at hpre
    obtain ⟨rfl, -⟩ := eq_of_finished hpre (by simp)
    rw [← h.collector.stream.of_atEnd hend] at hb hs
    refine ⟨hfault, List.length_map _, hsent, hb.lines, ?_⟩
    rw [he]
    exact hs.written

/-- **Delivery.** When a feeder and a collector both succeed, they have counted every line of the
input, the child was sent the lines of all parcels and answered as many as the units ask for, and
the output depends on the source and the answers alone. -/
theorem delivery {source : Source} {flow : Flow} {child : Child σ} {sink : Sink}
    {inputCapacity outputCapacity : Nat} {p : Pipeline σ} {t : Transcript} {m n : Nat}
    (hr : Reaches act Allowed (start source flow child sink { capacity := inputCapacity }
      { capacity := outputCapacity }) p t)
    (hm : p.feeder.result? = some (.ok m)) (hn : p.collector.result? = some (.ok n)) :
    source.fault? = none ∧ m = (lines source.input).length ∧ n = m ∧ source.parcels.length = n ∧
      t.taken ++ p.input.content = payloads source.parcels ∧
      (lines t.answered).length =
        (Descriptor.demands (descriptors source.parcels) {}).sum ∧
      p.collector.sink.outlet.written =
        sink.outlet.written ++ source.outputFrom sink.format t.answered := by
  obtain ⟨published, taken, log, before, hinv⟩ :=
    reaches_inv hr (inv_begin source flow child sink inputCapacity outputCapacity)
  obtain ⟨hfault, rfl, hsent, hlines, hw⟩ := hinv.collected hn
  obtain ⟨rfl, -⟩ := hinv.feeder.of_ok hm
  exact ⟨hfault, Source.length_parcels hfault, rfl, rfl, hsent, hlines.symm, hw⟩

/-- Two equal lines are answered once and passed on twice. -/
theorem delivery_repeat :
    let source : Source := { kind := .cache {}, input := [97, lf, 97, lf] }
    ∃ p t, (Reaches copy (fun _ _ => True) (start source { flushEvery := 1 } copier {}
        { capacity := 4 } { capacity := 4 }) p t ∧
      p.feeder.result? = some (.ok 2) ∧ p.collector.result? = some (.ok 2)) ∧
      source.parcels.length = 2 ∧ t.taken ++ p.input.content = payloads source.parcels ∧
      p.collector.sink.outlet.written = source.outputFrom .line t.answered := by
  intro source
  let s := start source { flushEvery := 1 } copier {} { capacity := 4 } { capacity := 4 }
  have hrun : (drive copy (fun _ _ => true) [.collector, .child, .feeder] 29 s {}).map
      (fun pt => (pt.1.feeder.result?.bind Except.toOption,
        pt.1.collector.result?.bind Except.toOption)) = some (some 2, some 2) := by
    decide +kernel
  obtain ⟨⟨p, t⟩, hd, he⟩ := Option.map_eq_some_iff.mp hrun
  obtain ⟨hm, hn⟩ := Prod.mk.inj he
  have hr := reaches_drive (fun _ _ _ => trivial) (.start trivial) hd
  have hm := eq_ok_of_toOption hm
  have hn := eq_ok_of_toOption hn
  obtain ⟨-, -, -, hlen, hsent, -, hw⟩ := delivery hr hm hn
  exact ⟨p, t, ⟨hr, hm, hn⟩, hlen, hsent, hw⟩

end Pipeline

end Coprocess
