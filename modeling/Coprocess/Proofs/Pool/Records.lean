import Coprocess.Proofs.Gzip.Members
import Coprocess.Proofs.Pipeline.Interleaving
import Coprocess.Proofs.Pool.Sharing
import Coprocess.Proofs.Supervision.Tallies

/-!
# Every record once

When a pool of children that copy their input succeeds, each record of its inputs was taken by one
worker, and written by it.

* `Pool.Sending.sent_perm`, `Pool.Sending.ordered`: the records that were sent are those of the
  inputs, in their order;
* `Pool.Succeeded`, `Pool.Inv.succeeded`: all stages have returned, and all children succeeded;
* `Pool.Inv.copied`: each worker has written what it took;
* `Pool.Delivers`, **`Pool.every_record_once`**: what the output is then.
-/

namespace Coprocess

namespace Pool

variable {σ : Type} {act : σ → Act σ} {settings : PoolSettings} {inputs : List Supply}
  {before : Bytes} {emitted : List (Nat × Bytes)} {j : Journal} {p : Pool σ}

/-! ## What was sent -/

/-- All records of the inputs, in their places. -/
def catalogue (streams : List (List Bytes)) : List Item := (streams.mapIdx number).flatten

/-- The records sent from each of the inputs. -/
def Journal.streams (j : Journal) (count : Nat) : List (List Bytes) :=
  (List.range count).map fun n => (j.sentBy n).map (·.record)

theorem records_catalogue (streams : List (List Bytes)) :
    (catalogue streams).map (·.record) = streams.flatten := by
  rw [catalogue, List.map_flatten]
  refine congrArg List.flatten (List.ext_getElem (by simp) fun n hn hn' => ?_)
  rw [List.getElem_map, List.getElem_mapIdx]
  refine List.ext_getElem (by simp [number]) fun k hk hk' => ?_
  rw [List.getElem_map]
  simp only [number, List.getElem_mapIdx]

theorem pairwise_number (n : Nat) (rs : List Bytes) :
    (number n rs).Pairwise fun a b => a.place < b.place := by
  refine List.pairwise_iff_getElem.mpr fun i k hi hk hik => ?_
  simpa only [number, List.getElem_mapIdx] using hik

namespace Sending

variable {f : Framing}

theorem whole (h : Sending f inputs j p) : ∀ a ∈ j.sent, f.Whole a.record := by
  intro a ha
  have hlt := h.known a ha
  have hi := List.getElem?_eq_getElem (h.count.symm ▸ hlt)
  have hinv := h.intakes a.input _ _ hi (List.getElem?_eq_getElem hlt)
  refine hinv.whole a.record (List.mem_map_of_mem (List.mem_filter.mpr ⟨ha, ?_⟩))
  exact decide_eq_true rfl

theorem ordered (h : Sending f inputs j p) :
    j.sent.Pairwise fun a b => a.input = b.input → a.place < b.place := by
  refine pairwise_of_filter Item.input fun n => ?_
  have hplaces := pairwise_number n ((j.sentBy n).map (·.record))
  rwa [← h.places n] at hplaces

theorem catalogue_streams (h : Sending f inputs j p) :
    catalogue (j.streams inputs.length) = (List.range inputs.length).flatMap j.sentBy := by
  rw [catalogue, List.flatMap_def]
  refine congrArg List.flatten (List.ext_getElem (by simp [Journal.streams]) fun n hn hn' => ?_)
  simp only [Journal.streams, List.getElem_mapIdx, List.getElem_map, List.getElem_range]
  exact (h.places n).symm

/-- **What was sent** are the records of the inputs. -/
theorem sent_perm (h : Sending f inputs j p) :
    j.sent.Perm (catalogue (j.streams inputs.length)) := by
  rw [h.catalogue_streams]
  exact perm_flatMap_filter (·.input) j.sent h.known

theorem length_sent (h : Sending f inputs j p) :
    j.sent.length = ((j.streams inputs.length).map List.length).sum := by
  rw [h.sent_perm.length_eq, ← List.length_map (·.record), records_catalogue, List.length_flatten]

theorem stream_of_ok (h : Sending f inputs j p)
    (hok : ∀ i ∈ p.intakes, ∃ n, i.result? = some (.ok n)) {n : Nat} {supply : Supply}
    {i : Intake} (hi : p.intakes[n]? = some i) (hs : inputs[n]? = some supply) :
    countIn i.result? = ((j.sentBy n).map (·.record)).length ∧
      f.Divides supply.bytes ((j.sentBy n).map (·.record)) := by
  obtain ⟨k, hk⟩ := hok i (List.mem_of_getElem? hi)
  obtain ⟨hcount, hdivides⟩ := (h.intakes n i supply hi hs).of_ok hk
  rw [hk]
  exact ⟨hcount, hdivides⟩

theorem divided (h : Sending f inputs j p)
    (hok : ∀ i ∈ p.intakes, ∃ n, i.result? = some (.ok n)) :
    List.Forall₂ (fun supply records => f.Divides supply.bytes records) inputs
      (j.streams inputs.length) := by
  refine List.forall₂_iff_get.mpr ⟨by simp [Journal.streams], fun n hn hn' => ?_⟩
  have hi := List.getElem?_eq_getElem (h.count.symm ▸ hn)
  have hs := (h.stream_of_ok hok hi (List.getElem?_eq_getElem hn)).2
  simpa [Journal.streams] using hs

theorem counted (h : Sending f inputs j p)
    (hok : ∀ i ∈ p.intakes, ∃ n, i.result? = some (.ok n)) :
    (p.intakes.map fun i => countIn i.result?) = (j.streams inputs.length).map List.length := by
  refine List.ext_getElem (by simp [Journal.streams, h.count]) fun n hn hn' => ?_
  rw [List.length_map] at hn
  have hi := List.getElem?_eq_getElem hn
  have hs := (h.stream_of_ok hok hi (List.getElem?_eq_getElem (h.count ▸ hn))).1
  simpa [Journal.streams] using hs

end Sending

/-! ## What has returned -/

/-- A pool whose stages have all returned, without a failure. -/
structure Succeeded (p : Pool σ) : Prop where
  intakes : ∀ i ∈ p.intakes, ∃ n, i.result? = some (.ok n)
  forwarders : ∀ w ∈ p.workers, ∃ n, w.forwarder.result? = some (.ok n)
  drains : ∀ w ∈ p.workers, ∃ n, w.drain.result? = some (.ok n)
  reaper : ∃ n, p.reaper.result? = some (.ok n)

theorem reaper_ok {r : Reaper} {report : Report} (h : reaperReport? r = some report) {n : Nat}
    (hok : report.result = .ok n) : r.result? = some (.ok n) := by
  obtain ⟨result, hr, rfl⟩ := Option.map_eq_some_iff.mp h
  obtain ⟨own, hown, rfl⟩ := Option.map_eq_some_iff.mp hr
  cases own with
  | error e => cases hok
  | ok k =>
    cases hok
    exact hown

/-- **All stages have succeeded** when as many of them have reported success. -/
theorem Inv.succeeded (h : p.Inv settings inputs before emitted j)
    (hlen : p.reports.length = settings.stages inputs)
    (hok : ∀ r ∈ p.reports, ∃ n, r.result = .ok n) : p.Succeeded := by
  have hintakes := List.length_filterMap_le (fun i : Intake => reportOf .input i.result?) p.intakes
  have hforwarders := List.length_filterMap_le
    (fun w : Worker σ => reportOf .workerFeeder w.forwarder.result?) p.workers
  have hdrains := List.length_filterMap_le
    (fun w : Worker σ => reportOf .workerReader w.drain.result?) p.workers
  have hreaper := Option.length_toList_le (o := reaperReport? p.reaper)
  have hcount := h.count
  have hsending := h.sending.count
  -- Every stage reports once at most, so as many reports as stages come from all of them.
  simp only [Pool.reports, List.length_append, PoolSettings.stages] at hlen
  simp only [Pool.reports, List.mem_append] at hok
  refine ⟨results_ok (by omega) fun r hr => hok r (.inl hr),
    results_ok (by omega) fun r hr => hok r (.inr (.inl hr)),
    results_ok (by omega) fun r hr => hok r (.inr (.inr (.inl hr))), ?_⟩
  cases hr : reaperReport? p.reaper with
  | none =>
    rw [hr] at hlen
    simp only [Option.toList_none, List.length_nil] at hlen
    omega
  | some report =>
    obtain ⟨n, hn⟩ := hok report (.inr (.inr (.inr (by rw [hr]; exact List.mem_singleton_self _))))
    exact ⟨n, reaper_ok hr hn⟩

theorem counts_reports (p : Pool σ) :
    ((p.reports.map (Report.count .input)).sum = (p.intakes.map fun i => countIn i.result?).sum) ∧
      (p.reports.map (Report.count .workerReader)).sum =
        (p.workers.map fun w => countIn w.drain.result?).sum := by
  have hreaper (stage : Stage) (hs : stage ≠ .reaper) :
      ((reaperReport? p.reaper).toList.map (Report.count stage)).sum = 0 := by
    rw [reaperReport?, reportOf]
    cases p.reaper.result? with
    | none => rfl
    | some result => simp [Report.count, Ne.symm hs]
  simp only [reports, List.map_append, List.sum_append, sum_counts, hreaper, ne_eq, reduceCtorEq,
    not_false_eq_true, if_true, if_false, Nat.add_zero, Nat.zero_add, and_self]

/-! ## What was written -/

/-- All children copy what they read. -/
def Copying (p : Pool σ) (j : Journal) : Prop :=
  ∀ n (w : Worker σ), p.workers[n]? = some w → w.Copies (j.transcripts n)

theorem Inv.worker_of_ok (h : p.Inv settings inputs before emitted j) (hs : p.Succeeded)
    (hcopies : p.Copying j) {n : Nat}
    {w : Worker σ} (hw : p.workers[n]? = some w) :
    writtenBy emitted n = (j.takenBy n).map (·.record) ∧
      countIn w.drain.result? = (j.takenBy n).length ∧ p.channel.Drained := by
  have hmem := List.mem_of_getElem? hw
  have hn := (List.getElem?_eq_some_iff.mp hw).1
  obtain ⟨k, hf⟩ := hs.forwarders w hmem
  obtain ⟨m, hd⟩ := hs.drains w hmem
  obtain ⟨r, hr⟩ := hs.reaper
  obtain ⟨reason, hstatus, hok⟩ := h.reaper.of_ok hr n (h.count ▸ hn)
  rw [status, hw] at hstatus
  have hended : w.child.ended = some (.exited 0) := Child.ended_of_succeeded hstatus hok
  have hwhole : ∀ r ∈ (j.takenBy n).map (·.record), settings.framing.Whole r := by
    intro r hr
    obtain ⟨a, ha, rfl⟩ := List.mem_map.mp hr
    obtain ⟨b, hb, rfl⟩ := List.mem_map.mp ha
    exact h.sending.whole b.1 (List.of_mem_zip (List.mem_of_mem_filter hb)).1
  obtain ⟨hes, hm, hdrained⟩ :=
    (h.workers n w hw).of_ok hwhole (hcopies n w hw) hended hf hd
  rw [List.length_map] at hm
  exact ⟨hes, by rw [hd]; exact hm, hdrained⟩

/-- **Each worker has written what it took.** -/
theorem Inv.copied (h : p.Inv settings inputs before emitted j) (hs : p.Succeeded)
    (hcopies : p.Copying j) (n : Nat) :
    writtenBy emitted n = (j.takenBy n).map (·.record) := by
  by_cases hn : n < p.workers.length
  · exact (h.worker_of_ok hs hcopies (List.getElem?_eq_getElem hn)).1
  · rw [h.count] at hn
    have hnone : emitted.filter (·.1 = n) = [] := by
      refine List.filter_eq_nil_iff.mpr fun a ha hk => hn ?_
      rw [← of_decide_eq_true hk]
      exact h.writers a.1 (h.written ▸ List.mem_map_of_mem ha)
    have hnobody : j.routed.filter (·.2 = n) = [] := by
      refine List.filter_eq_nil_iff.mpr fun a ha hk => hn ?_
      rw [← of_decide_eq_true hk]
      exact h.takers a.2 (List.of_mem_zip ha).2
    rw [writtenBy, Journal.takenBy, hnone, hnobody]
    rfl

theorem Inv.routed_of_drained (h : p.Inv settings inputs before emitted j)
    (hd : p.channel.Drained) : j.routed.map (·.1) = j.sent := by
  obtain ⟨front, rest, hsent, hfront, hrest⟩ := h.waiting
  rw [hd.1, eq_comm, List.map_eq_nil_iff] at hrest
  rw [Journal.routed, hsent, hrest, List.append_nil]
  exact List.map_fst_zip (Nat.le_of_eq hfront)

theorem Inv.counted (h : p.Inv settings inputs before emitted j) (hs : p.Succeeded)
    (hcopies : p.Copying j) :
    (p.workers.map fun w => countIn w.drain.result?).sum = j.routed.length := by
  have htakers : ∀ a ∈ j.routed, a.2 < settings.workers :=
    fun a ha => h.takers a.2 (List.of_mem_zip ha).2
  rw [(perm_flatMap_filter (·.2) j.routed htakers).length_eq, List.length_flatMap]
  refine congrArg List.sum (List.ext_getElem (by simp [h.count]) fun n hn hn' => ?_)
  rw [List.length_map] at hn
  have hw := (h.worker_of_ok hs hcopies (List.getElem?_eq_getElem hn)).2.1
  simpa [Journal.takenBy] using hw

/-! ## Delivery -/

/-- The content of what was written, compressed or not. -/
def content (compress : Bool) (written : Bytes) : Supply :=
  if compress then Gzip.openInput [written] else { bytes := written }

/-- What is written for records. -/
def rendered (compress : Bool) (output : List (Item × Nat)) : Bytes :=
  (output.map fun a => Drain.encoded compress a.1.record).flatten

theorem content_rendered (compress : Bool) (output : List (Item × Nat)) :
    content compress (rendered compress output) =
      { bytes := (output.map (·.1.record)).flatten } := by
  unfold content rendered Drain.encoded
  cases compress with
  | false => rfl
  | true =>
    have hparts := Gzip.openInput_compress (output.map (·.1.record))
    rw [List.map_map] at hparts
    exact hparts

/-- Every record of the inputs is delivered once. The records of the inputs are `streams`, and
`output` are those written after the bytes `before`, each with its worker. -/
structure Delivers (settings : PoolSettings) (inputs : List Supply) (before : Bytes) (j : Journal)
    (report : PoolReport) (o : Outlet) (streams : List (List Bytes)) (output : List (Item × Nat)) :
    Prop where
  divided : List.Forall₂ (fun supply records => settings.framing.Divides supply.bytes records)
    inputs streams
  workers : report.workers = settings.workers
  recordsIn : report.recordsIn = (streams.map List.length).sum
  recordsOut : report.recordsOut = (streams.map List.length).sum
  /-- The output is whole records one after the other, once it is decompressed. -/
  written : ∃ added, o.written = before ++ added ∧
    content settings.compress added = { bytes := (output.map (·.1.record)).flatten }
  whole : ∀ a ∈ output, settings.framing.Whole a.1.record
  records : (output.map (·.1.record)).Perm streams.flatten
  items : (output.map (·.1)).Perm (catalogue streams)
  /-- Who wrote each record. -/
  writers : output.map (·.2) = j.written
  /-- A worker wrote what it took. -/
  takers : ∀ n, output.filter (·.2 = n) = j.routed.filter (·.2 = n)
  ordered : output.Pairwise fun a b => a.2 = b.2 → a.1.input = b.1.input → a.1.place < b.1.place

theorem Inv.exists_output (h : p.Inv settings inputs before emitted j) (hs : p.Succeeded)
    (hcopies : p.Copying j) :
    ∃ output : List (Item × Nat), output.map (fun a => (a.2, a.1.record)) = emitted ∧
      output.Perm j.routed ∧ ∀ n, output.filter (·.2 = n) = j.routed.filter (·.2 = n) := by
  refine exists_reordering Item.record fun n => ?_
  have hcopied := h.copied hs hcopies n
  rw [Journal.takenBy, List.map_map] at hcopied
  exact hcopied

/-- **Every record is delivered once and whole**, whatever the order of steps, when a pool of
children that copy their input succeeds; records of one input that go through one worker keep their
order. -/
theorem every_record_once {child : Child σ} {outlet o : Outlet} {reports : List Report}
    {report : PoolReport} (hworkers : 0 < settings.workers)
    (hr : Reaches act (settings.start child inputs outlet) p j)
    (hcopies : p.Copying j)
    (hperm : reports.Perm j.reports) (hlen : reports.length = settings.stages inputs)
    (hjoin : settings.join (supervise reports) p.outlet = (.ok report, o)) :
    ∃ streams output, Delivers settings inputs outlet.written j report o streams output := by
  obtain ⟨emitted, h⟩ := reaches_inv hr (inv_start settings child inputs outlet)
  obtain ⟨counts, hcounts, rfl, ho⟩ := join_ok hjoin
  have hreports := supervise_ok hcounts
  have hall := hperm.trans h.reports
  have hs : p.Succeeded := by
    refine h.succeeded (hall.length_eq ▸ hlen) fun r hr => ?_
    have hmem := hall.mem_iff.mpr hr
    rw [hreports] at hmem
    obtain ⟨c, -, rfl⟩ := List.mem_map.mp hmem
    exact ⟨c.2, rfl⟩
  have htotal := countOf_perm (hreports ▸ hall)
  -- Some forwarder has met the end of the channel, so all that was sent was taken.
  have hdrained : p.channel.Drained :=
    (h.worker_of_ok hs hcopies (List.getElem?_eq_getElem (h.count.symm ▸ hworkers))).2.2
  have hrouted := h.routed_of_drained hdrained
  have hsum : j.routed.length = ((j.streams inputs.length).map List.length).sum := by
    rw [← List.length_map (·.1), hrouted, h.sending.length_sent]
  obtain ⟨output, houtput, hoperm, hfilter⟩ := h.exists_output hs hcopies
  have hitems : (output.map (·.1)).Perm (catalogue (j.streams inputs.length)) := by
    refine (hoperm.map _).trans ?_
    rw [hrouted]
    exact h.sending.sent_perm
  refine ⟨j.streams inputs.length, output, h.sending.divided hs.intakes, rfl, ?_, ?_, ?_, ?_, ?_,
    hitems, ?_, hfilter, ?_⟩
  · show countOf counts .input = _
    rw [htotal, p.counts_reports.1, h.sending.counted hs.intakes]
  · show countOf counts .workerReader = _
    rw [htotal, p.counts_reports.2, h.counted hs hcopies, hsum]
  · refine ⟨rendered settings.compress output, ?_, content_rendered _ _⟩
    rw [ho, h.output, rendered, ← houtput, List.map_map]
    rfl
  · intro a ha
    have hsent : a.1 ∈ j.sent := (List.of_mem_zip (hoperm.mem_iff.mp ha)).1
    exact h.sending.whole a.1 hsent
  · have hrecords := hitems.map (·.record)
    rwa [records_catalogue, List.map_map] at hrecords
  · rw [← h.written, ← houtput, List.map_map]
    rfl
  · refine pairwise_of_filter Prod.snd fun n => ?_
    rw [hfilter]
    have hordered := h.sending.ordered
    rw [← hrouted, List.pairwise_map] at hordered
    exact hordered.sublist List.filter_sublist

/-! ## A run by turns -/

/-- Runs by turns: each of `turns` takes a step if it can, a millisecond after the one before. -/
def drive (act : σ → Act σ) : Nat → List PoolActor → Pool σ → Journal → Pool σ × Journal
  | _, [], p, j => (p, j)
  | now, actor :: turns, p, j =>
    match p.stepOf act now actor with
    | none => drive act (now + 1) turns p j
    | some (p', report?) =>
      drive act (now + 1) turns p'
        { note act j p p' actor with reports := j.reports ++ report?.toList }

theorem reaches_drive {s : Pool σ} (hr : Reaches act s p j) (now : Nat)
    (turns : List PoolActor) :
    Reaches act s (drive act now turns p j).1 (drive act now turns p j).2 := by
  induction turns generalizing now p j with
  | nil => exact hr
  | cons actor turns ih =>
    rw [drive]
    cases hs : p.stepOf act now actor with
    | none => exact ih hr (now + 1)
    | some step => exact ih (.step hr now actor hs) (now + 1)

/-- Two workers share the lines of two inputs, the last of which gets a line feed. -/
theorem every_record_once_lines :
    let settings : PoolSettings :=
      { workers := 2, compress := true, framing := .lines, flow := { flushEvery := 1 } }
    let inputs : List Supply := [{ bytes := [97, lf, 98, lf] }, { bytes := [99, lf, 100] }]
    ∃ (p : Pool (Option Bytes)) (j : Journal) (report : PoolReport) (o : Outlet),
      (0 < settings.workers ∧
        Reaches Pipeline.copy (settings.start Pipeline.copier inputs {}) p j ∧ p.Copying j ∧
        j.reports.length = settings.stages inputs ∧
        settings.join (supervise j.reports) p.outlet = (.ok report, o)) ∧
      report.recordsOut = 4 ∧ j.written = [0, 1, 0, 1] ∧
      ∃ streams output, Delivers settings inputs [] j report o streams output := by
  intro settings inputs
  obtain ⟨p, j, hr, hrun⟩ : ∃ p j,
      Reaches Pipeline.copy (settings.start Pipeline.copier inputs {}) p j ∧
        (p.workers.length, (List.range 2).all fun n => (j.transcripts n).atEnd &&
            decide ((j.transcripts n).answered = (j.transcripts n).taken),
          j.reports.length, (settings.join (supervise j.reports) p.outlet).1.toOption.map
            (·.recordsOut), j.written) = (2, true, 7, some 4, [0, 1, 0, 1]) := by
    let s := settings.start Pipeline.copier inputs {}
    exact ⟨_, _, reaches_drive .start 0 (List.replicate 18 s.actors).flatten, by decide +kernel⟩
  simp only [Prod.mk.injEq] at hrun
  obtain ⟨hlen, hall, hreports, hjoin, hwritten⟩ := hrun
  have hcopies : p.Copying j := by
    intro n w hw hended
    have hn : n < 2 := hlen ▸ (List.getElem?_eq_some_iff.mp hw).1
    simpa using List.all_eq_true.mp hall n (List.mem_range.mpr hn)
  obtain ⟨outcome, o, hout⟩ : ∃ outcome o,
      settings.join (supervise j.reports) p.outlet = (outcome, o) := ⟨_, _, rfl⟩
  rw [hout] at hjoin
  cases outcome with
  | error failure => cases hjoin
  | ok report =>
    exact ⟨p, j, report, o, ⟨by decide, hr, hcopies, hreports, hout⟩, Option.some.inj hjoin,
      hwritten, every_record_once (by decide) hr hcopies (.refl _) hreports hout⟩

end Pool

end Coprocess
