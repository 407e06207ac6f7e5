import Coprocess.Pool.Run
import Coprocess.Proofs.KeyedLists
import Coprocess.Proofs.Pool.Reaping
import Coprocess.Proofs.Pool.Workers
import Mathlib.Data.List.Indexes

/-!
# Records that are shared among workers

The stages of a pool and its children take steps in any order, and what can be seen of them is
noted.

* `Item`, `Pool.Journal`: which record was sent when, who took it, and who wrote when;
* `Pool.Reaches`: the states of a pool after any order of steps, with their journal;
* `Pool.Inv`: what holds of a pool;
* **`Pool.reaches_inv`**: it holds in every state that is reached.
-/

namespace Coprocess

/-! ## Journals -/

/-- A record of an input, and its place among the records of this input. -/
structure Item where
  input : Nat
  place : Nat
  record : Bytes
  deriving DecidableEq

/-- The records of an input in their places. -/
def number (input : Nat) (rs : List Bytes) : List Item := rs.mapIdx fun place r => ⟨input, place, r⟩

namespace Pool

variable {σ : Type}

/-- What can be seen of a pool from outside. -/
structure Journal where
  /-- The records that were put into the channel. -/
  sent : List Item := []
  /-- The workers that took a record from the channel. -/
  taken : List Nat := []
  /-- The workers that wrote a piece of the output. -/
  written : List Nat := []
  /-- What the child of each worker has read and written. -/
  transcripts : Nat → Transcript := fun _ => {}
  reports : List Report := []

namespace Journal

/-- The records that were taken, and the workers that took them. -/
def routed (j : Journal) : List (Item × Nat) := j.sent.zip j.taken

/-- The records that an intake sent. -/
def sentBy (j : Journal) (input : Nat) : List Item := j.sent.filter (·.input = input)

/-- Records that an intake sends, after those that it has sent. -/
def arrivals (j : Journal) (input : Nat) (records : List Bytes) : List Item :=
  records.map fun r => ⟨input, (j.sentBy input).length, r⟩

/-- The records that a worker took. -/
def takenBy (j : Journal) (worker : Nat) : List Item :=
  (j.routed.filter (·.2 = worker)).map (·.1)

/-- What was sent is what was taken, and then what waits. -/
def Awaits (j : Journal) (waiting : List Bytes) : Prop :=
  ∃ front rest, j.sent = front ++ rest ∧ front.length = j.taken.length ∧
    waiting = rest.map (·.record)

end Journal

/-- The journal after the step of an actor, apart from its report. -/
def note (act : σ → Act σ) (j : Journal) (p p' : Pool σ) : PoolActor → Journal
  | .owner | .reaper => j
  | .intake n =>
    let records := p'.channel.waiting.toList.drop p.channel.waiting.toList.length
    { j with sent := j.sent ++ j.arrivals n records }
  | .forwarder n =>
    let count := p.channel.waiting.toList.length - p'.channel.waiting.toList.length
    { j with taken := j.taken ++ List.replicate count n }
  | .child n =>
    match p.workers[n]?, p'.workers[n]? with
    | some w, some w' =>
      { j with transcripts := fun k =>
          if k = n then w.transcribe act (j.transcripts n) w' else j.transcripts k }
    | _, _ => j
  | .drain n =>
    let count := p'.outlet.pieces.length - p.outlet.pieces.length
    { j with written := j.written ++ List.replicate count n }

/-- The states after any order of steps at any times, with their journals. -/
inductive Reaches (act : σ → Act σ) (s : Pool σ) : Pool σ → Journal → Prop
  | start : Reaches act s s {}
  | step {p p' : Pool σ} {j : Journal} {report? : Option Report} (h : Reaches act s p j) (now : Nat)
      (actor : PoolActor) (hs : p.stepOf act now actor = some (p', report?)) :
      Reaches act s p'
        { note act j p p' actor with reports := j.reports ++ report?.toList }

/-- The reports of all stages that have returned. -/
def reports (p : Pool σ) : List Report :=
  p.intakes.filterMap (fun i => reportOf .input i.result?) ++
    (p.workers.filterMap (fun w => reportOf .workerFeeder w.forwarder.result?) ++
      (p.workers.filterMap (fun w => reportOf .workerReader w.drain.result?) ++
        (reaperReport? p.reaper).toList))

/-- The records that a worker wrote. -/
def writtenBy (emitted : List (Nat × Bytes)) (worker : Nat) : List Bytes :=
  (emitted.filter (·.1 = worker)).map (·.2)

/-! ## The invariant -/

/-- What holds on the side of the inputs: the intakes have sent the first records of their
inputs. -/
structure Sending (f : Framing) (inputs : List Supply) (j : Journal) (p : Pool σ) : Prop where
  count : p.intakes.length = inputs.length
  intakes : ∀ n (i : Intake) (supply : Supply), p.intakes[n]? = some i → inputs[n]? = some supply →
    i.Inv f supply.bytes ((j.sentBy n).map (·.record))
  places : ∀ n, j.sentBy n = number n ((j.sentBy n).map (·.record))
  known : ∀ a ∈ j.sent, a.input < inputs.length
  senders : p.channel.senders =
    p.intakes.countP (·.result?.isNone) + if p.isOpen then 1 else 0

/-- What holds of a pool that has written the records of `emitted` after the bytes `before`, each by
the worker with its number. -/
structure Inv (settings : PoolSettings) (inputs : List Supply) (before : Bytes)
    (emitted : List (Nat × Bytes)) (j : Journal) (p : Pool σ) : Prop where
  sending : Sending settings.framing inputs j p
  waiting : j.Awaits p.channel.waiting.toList
  count : p.workers.length = settings.workers
  takers : ∀ n ∈ j.taken, n < settings.workers
  workers : ∀ n (w : Worker σ), p.workers[n]? = some w →
    w.Inv settings.framing settings.compress p.channel ((j.takenBy n).map (·.record))
      (writtenBy emitted n) (j.transcripts n)
  written : emitted.map (·.1) = j.written
  writers : ∀ n ∈ j.written, n < settings.workers
  output : p.outlet.written =
    before ++ (emitted.map fun e => Drain.encoded settings.compress e.2).flatten
  reaper : p.reaper.Inv settings.workers p.status
  reports : j.reports.Perm p.reports

variable {act : σ → Act σ} {settings : PoolSettings} {inputs : List Supply} {before : Bytes}
  {emitted : List (Nat × Bytes)} {j : Journal} {p p' : Pool σ} {now n : Nat}
  {report? : Option Report}

theorem inv_start (settings : PoolSettings) (child : Child σ) (inputs : List Supply)
    (outlet : Outlet) :
    Inv settings inputs outlet.written [] {} (settings.start child inputs outlet) where
  sending := by
    refine ⟨List.length_map _, fun n i supply hi hs => ?_, fun n => rfl, fun a ha => ?_, ?_⟩
    · obtain ⟨supply', hs', rfl⟩ := Option.map_eq_some_iff.mp (List.getElem?_map ▸ hi)
      rw [hs] at hs'
      cases hs'
      exact Intake.inv_start _ supply
    · exact absurd ha List.not_mem_nil
    · have hall : (inputs.map fun supply : Supply =>
          ({ reader := { supply, framing := settings.framing } } : Intake)).countP
            (·.result?.isNone) = inputs.length := by
        rw [List.countP_map]
        exact List.countP_eq_length.mpr fun _ _ => rfl
      exact congrArg (· + 1) hall.symm
  waiting := ⟨[], [], rfl, rfl, rfl⟩
  count := List.length_replicate
  takers := fun _ h => absurd h List.not_mem_nil
  workers := fun n w hw => by
    have hw := List.eq_of_mem_replicate (List.mem_of_getElem? hw)
    rw [hw]
    exact ⟨Forwarder.inv_start _ _ _, Drain.inv_start _ _, fun h => by cases h⟩
  written := rfl
  writers := fun _ h => absurd h List.not_mem_nil
  output := (List.append_nil _).symm
  reaper := Reaper.inv_start _ _
  reports := by
    have hnone : (settings.start child inputs outlet).reports = [] := by
      refine List.append_eq_nil_iff.mpr ⟨?_, List.append_eq_nil_iff.mpr ⟨?_,
        List.append_eq_nil_iff.mpr ⟨?_, rfl⟩⟩⟩
      · refine List.filterMap_eq_nil_iff.mpr fun i hi => ?_
        obtain ⟨supply, -, rfl⟩ := List.mem_map.mp hi
        rfl
      · refine List.filterMap_eq_nil_iff.mpr fun w hw => ?_
        rw [List.eq_of_mem_replicate hw]
        rfl
      · refine List.filterMap_eq_nil_iff.mpr fun w hw => ?_
        rw [List.eq_of_mem_replicate hw]
        rfl
    rw [hnone]

/-! ## Steps -/

/-- What was taken does not depend on what is sent later. -/
theorem Journal.Awaits.send {waiting more : List Bytes} (h : j.Awaits waiting)
    {items : List Item} (hmore : items.map (·.record) = more) :
    { j with sent := j.sent ++ items }.Awaits (waiting ++ more) ∧
      { j with sent := j.sent ++ items }.routed = j.routed := by
  obtain ⟨front, rest, hs, hlen, rfl⟩ := h
  subst hmore
  have hs' : j.sent ++ items = front ++ (rest ++ items) := by rw [hs, List.append_assoc]
  refine ⟨⟨front, rest ++ items, hs', hlen, (List.map_append ..).symm⟩, ?_⟩
  rw [Journal.routed, Journal.routed, hs', zip_of_length hlen, hs, zip_of_length hlen]

theorem Journal.Awaits.take {taken waiting : List Bytes} (h : j.Awaits (taken ++ waiting))
    (n : Nat) : ∃ items : List Item, items.map (·.record) = taken ∧
      { j with taken := j.taken ++ List.replicate taken.length n }.Awaits waiting ∧
      { j with taken := j.taken ++ List.replicate taken.length n }.routed =
        j.routed ++ items.zip (List.replicate taken.length n) := by
  obtain ⟨front, rest, hs, hlen, hrest⟩ := h
  obtain ⟨items, later, rfl, rfl, rfl⟩ := List.map_eq_append_iff.mp hrest.symm
  rw [List.length_map]
  have hs' : j.sent = (front ++ items) ++ later := by rw [hs, List.append_assoc]
  have hlen' : (front ++ items).length =
      (j.taken ++ List.replicate items.length n).length := by
    rw [List.length_append, List.length_append, List.length_replicate, hlen]
  refine ⟨items, rfl, ⟨front ++ items, later, hs', hlen', rfl⟩, ?_⟩
  show j.sent.zip (j.taken ++ List.replicate items.length n) = _
  rw [Journal.routed, hs', zip_of_length hlen', List.zip_append hlen, List.append_assoc,
    zip_of_length hlen]

theorem number_concat (n : Nat) (rs : List Bytes) (r : Bytes) :
    number n (rs ++ [r]) = number n rs ++ [⟨n, rs.length, r⟩] :=
  List.mapIdx_concat (f := fun place r => (⟨n, place, r⟩ : Item))

theorem records_arrivals (j : Journal) (n : Nat) (sent : List Bytes) :
    (j.arrivals n sent).map (·.record) = sent := by
  rw [Journal.arrivals, List.map_map]
  exact List.map_id sent

theorem sentBy_arrivals (j : Journal) (n k : Nat) (sent : List Bytes) :
    { j with sent := j.sent ++ j.arrivals n sent }.sentBy k =
      j.sentBy k ++ if k = n then j.arrivals n sent else [] := by
  rw [Journal.sentBy, List.filter_append]
  refine congrArg (j.sentBy k ++ ·) ?_
  split_ifs with hk
  · refine List.filter_eq_self.mpr fun a ha => ?_
    obtain ⟨r, -, rfl⟩ := List.mem_map.mp ha
    exact decide_eq_true hk.symm
  · refine List.filter_eq_nil_iff.mpr fun a ha => ?_
    obtain ⟨r, -, rfl⟩ := List.mem_map.mp ha
    simpa using Ne.symm hk

theorem Sending.congr {f : Framing} {j' : Journal} (h : Sending f inputs j p)
    (hsent : j'.sent = j.sent) (hi : p'.intakes = p.intakes) (ho : p'.isOpen = p.isOpen)
    (hs : p'.channel.senders = p.channel.senders) : Sending f inputs j' p' := by
  have hby (n : Nat) : j'.sentBy n = j.sentBy n := congrArg (List.filter _) hsent
  refine ⟨?_, fun n i supply hn => ?_, fun n => ?_, fun a ha => h.known a (hsent ▸ ha), ?_⟩
  · rw [hi]
    exact h.count
  · rw [hby]
    exact h.intakes n i supply (hi ▸ hn)
  · rw [hby]
    exact h.places n
  · rw [hi, ho, hs]
    exact h.senders

theorem Sending.not_drained {f : Framing} (h : Sending f inputs j p) {i : Intake}
    (hi : p.intakes[n]? = some i) (hgoing : i.result? = none) : ¬ p.channel.Drained := by
  intro hd
  have hcount : 0 < p.intakes.countP (·.result?.isNone) := by
    refine List.countP_pos_iff.mpr ⟨i, List.mem_of_getElem? hi, ?_⟩
    rw [hgoing]
    rfl
  have hsenders := h.senders
  rw [hd.2] at hsenders
  omega

theorem Sending.step {f : Framing} (h : Sending f inputs j p) {i i' : Intake} {c : Channel Bytes}
    (hi : p.intakes[n]? = some i) (hstep : i.step p.channel = some (i', c)) :
    ∃ sent, Intake.Effect i i' p.channel c sent ∧
      Sending f inputs { j with sent := j.sent ++ j.arrivals n sent }
        { p with channel := c, intakes := p.intakes.set n i' } := by
  obtain ⟨hn, hget⟩ := List.getElem?_eq_some_iff.mp hi
  obtain ⟨supply, hsupply⟩ : ∃ supply, inputs[n]? = some supply :=
    ⟨_, List.getElem?_eq_getElem (h.count ▸ hn)⟩
  obtain ⟨sent, hinv, he⟩ := Intake.step_inv hstep (h.intakes n i supply hi hsupply)
  refine ⟨sent, he, ?_, fun k i₁ s₁ hi₁ hs₁ => ?_, fun k => ?_, fun a ha => ?_, ?_⟩
  · rw [List.length_set]
    exact h.count
  · rw [sentBy_arrivals]
    rcases getElem?_set_cases hi₁ with ⟨rfl, rfl⟩ | ⟨hk, hi₁⟩
    · rw [hsupply] at hs₁
      cases hs₁
      rw [if_pos rfl, List.map_append, records_arrivals]
      exact hinv
    · rw [if_neg hk, List.append_nil]
      exact h.intakes k i₁ s₁ hi₁ hs₁
  · rw [sentBy_arrivals]
    split_ifs with hk
    · subst hk
      rw [List.map_append, records_arrivals]
      cases sent with
      | nil =>
        rw [List.append_nil]
        exact (List.append_nil _).trans (h.places k)
      | cons r sent =>
        obtain rfl : sent = [] := List.length_eq_zero_iff.mp (by simpa using he.one)
        rw [number_concat, ← h.places k, List.length_map]
        rfl
    · rw [List.append_nil]
      exact h.places k
  · rcases List.mem_append.mp ha with ha | ha
    · exact h.known a ha
    · obtain ⟨r, -, rfl⟩ := List.mem_map.mp ha
      exact h.count ▸ hn
  · have hpos : 0 < p.intakes.countP (·.result?.isNone) := by
      refine List.countP_pos_iff.mpr ⟨i, List.mem_of_getElem? hi, ?_⟩
      rw [he.going]
      rfl
    have hi' : i.result?.isNone = true := by rw [he.going]; rfl
    show c.senders = (p.intakes.set n i').countP (·.result?.isNone) + if p.isOpen then 1 else 0
    rw [he.senders, h.senders, List.countP_set hn, hget, hi', if_pos rfl]
    cases hr : i'.result? with
    | none =>
      simp only [Option.isSome_none, Option.isNone_none, Bool.false_eq_true, if_false, if_true]
      omega
    | some result =>
      simp only [Option.isSome_some, Option.isNone_some, Bool.false_eq_true, if_false, if_true]
      omega

theorem inv_owner (hs : p.stepOf act now .owner = some (p', report?))
    (h : p.Inv settings inputs before emitted j) :
    p'.Inv settings inputs before emitted
      { note act j p p' .owner with reports := j.reports ++ report?.toList } := by
  unfold stepOf at hs
  split_ifs at hs with hopen
  cases hs
  have hsenders := h.sending.senders
  rw [if_pos hopen] at hsenders
  refine ⟨⟨h.sending.count, h.sending.intakes, h.sending.places, h.sending.known, ?_⟩, h.waiting,
    h.count, h.takers, fun n w hw => (h.workers n w hw).mono fun hd => ⟨hd.1, ?_⟩, h.written,
    h.writers, h.output, h.reaper, ?_⟩
  · show p.channel.senders - 1 = _
    rw [hsenders]
    rfl
  · show p.channel.senders - 1 = 0
    rw [hd.2]
  · rw [Option.toList_none, List.append_nil]
    exact h.reports

theorem inv_intake (hs : p.stepOf act now (.intake n) = some (p', report?))
    (h : p.Inv settings inputs before emitted j) :
    p'.Inv settings inputs before emitted
      { note act j p p' (.intake n) with reports := j.reports ++ report?.toList } := by
  obtain ⟨i, hi, hs⟩ := Option.bind_eq_some_iff.mp hs
  obtain ⟨⟨i', c⟩, hstep, hs⟩ := Option.bind_eq_some_iff.mp hs
  cases hs
  obtain ⟨sent, he, hsending⟩ := h.sending.step hi hstep
  have hbusy := h.sending.not_drained hi he.going
  have hsent : c.waiting.toList.drop p.channel.waiting.toList.length = sent := by
    rw [he.waiting, List.drop_left]
  have hnote : note act j p { p with channel := c, intakes := p.intakes.set n i' } (.intake n) =
      { j with sent := j.sent ++ j.arrivals n sent } := by
    simp only [note, hsent]
  rw [hnote]
  obtain ⟨hwaiting, hrouted⟩ := h.waiting.send (records_arrivals j n sent)
  rw [← he.waiting] at hwaiting
  refine ⟨hsending.congr rfl rfl rfl rfl, hwaiting, h.count, h.takers, fun k w hw => ?_, h.written,
    h.writers, h.output, h.reaper, ?_⟩
  · -- The intake held the channel open, so no forwarder has met its end.
    have hstay : p.channel.Drained → c.Drained := fun hd => absurd hd hbusy
    have hw := (h.workers k w hw).mono hstay
    rw [Journal.takenBy, ← hrouted] at hw
    exact hw
  · have hset := filterMap_set_perm (f := fun i : Intake => reportOf .input i.result?) (b := i') hi
      (by simp [he.going, reportOf])
    exact (h.reports.append_right _).trans (append_perm hset _)

theorem status_set {w : Worker σ} (hw : p.workers[n]? = some w) (w' : Worker σ)
    (hchild : w'.child.ended = w.child.ended) (c : Channel Bytes) (o : Outlet) :
    { p with channel := c, workers := p.workers.set n w', outlet := o }.status = p.status := by
  funext k
  obtain ⟨hn, -⟩ := List.getElem?_eq_some_iff.mp hw
  rw [status, status]
  by_cases hk : n = k
  · subst hk
    rw [List.getElem?_set_self hn, hw]
    show w'.child.status.map _ = w.child.status.map _
    rw [Child.status, Child.status, hchild]
  · rw [List.getElem?_set_ne hk]

theorem takenBy_append {j' : Journal} {items : List Item} {m : Nat} (hm : items.length = m)
    (hrouted : j'.routed = j.routed ++ items.zip (List.replicate m n)) (k : Nat) :
    j'.takenBy k = j.takenBy k ++ if k = n then items else [] := by
  have hmem (a : Item × Nat) (ha : a ∈ items.zip (List.replicate m n)) : a.2 = n :=
    List.eq_of_mem_replicate (List.of_mem_zip ha).2
  rw [Journal.takenBy, hrouted, List.filter_append, List.map_append]
  refine congrArg (j.takenBy k ++ ·) ?_
  split_ifs with hk
  · rw [List.filter_eq_self.mpr fun a ha => decide_eq_true ((hmem a ha).trans hk.symm)]
    exact List.map_fst_zip (by rw [List.length_replicate, hm])
  · rw [List.filter_eq_nil_iff.mpr fun a ha => by simpa [hmem a ha] using Ne.symm hk]
    rfl

theorem writtenBy_append (emitted : List (Nat × Bytes)) (n k : Nat) (more : List Bytes) :
    writtenBy (emitted ++ more.map (n, ·)) k =
      writtenBy emitted k ++ if k = n then more else [] := by
  rw [writtenBy, List.filter_append, List.map_append]
  refine congrArg (writtenBy emitted k ++ ·) ?_
  split_ifs with hk
  · rw [List.filter_eq_self.mpr fun a ha => ?_, List.map_map]
    · exact List.map_id more
    · obtain ⟨r, -, rfl⟩ := List.mem_map.mp ha
      exact decide_eq_true hk.symm
  · rw [List.filter_eq_nil_iff.mpr fun a ha => ?_]
    · rfl
    · obtain ⟨r, -, rfl⟩ := List.mem_map.mp ha
      simpa using Ne.symm hk

theorem inv_forwarder (hs : p.stepOf act now (.forwarder n) = some (p', report?))
    (h : p.Inv settings inputs before emitted j) :
    p'.Inv settings inputs before emitted
      { note act j p p' (.forwarder n) with reports := j.reports ++ report?.toList } := by
  obtain ⟨w, hw, hs⟩ := Option.bind_eq_some_iff.mp hs
  obtain ⟨⟨fw, c, i⟩, hstep, hs⟩ := Option.bind_eq_some_iff.mp hs
  cases hs
  have hgoing := Forwarder.going_of_step hstep (h.workers n w hw).forwarder
  obtain ⟨taken, part, hinv, he⟩ := Worker.inv_forwarder hstep (h.workers n w hw)
  have hcount : p.channel.waiting.toList.length - c.waiting.toList.length = taken.length := by
    rw [he.waiting, List.length_append, Nat.add_sub_cancel]
  have hnote : note act j p
      { p with channel := c, workers := p.workers.set n { w with forwarder := fw, input := i } }
        (.forwarder n) = { j with taken := j.taken ++ List.replicate taken.length n } := by
    simp only [note, hcount]
  rw [hnote]
  have hwaiting := h.waiting
  rw [he.waiting] at hwaiting
  obtain ⟨items, hitems, hawaits, hrouted⟩ := hwaiting.take n
  have hlen : items.length = taken.length := by rw [← hitems, List.length_map]
  refine ⟨h.sending.congr rfl rfl rfl he.senders, hawaits, ?_, fun k hk => ?_, fun k w₁ hw₁ => ?_,
    h.written, h.writers, h.output, ?_, ?_⟩
  · rw [List.length_set]
    exact h.count
  · rcases List.mem_append.mp hk with hk | hk
    · exact h.takers k hk
    · rw [List.eq_of_mem_replicate hk, ← h.count]
      exact (List.getElem?_eq_some_iff.mp hw).1
  · have htaken := takenBy_append hlen hrouted k
    rcases getElem?_set_cases hw₁ with ⟨rfl, rfl⟩ | ⟨hk, hw₁⟩
    · rw [if_pos rfl] at htaken
      rw [← hitems, ← List.map_append, ← htaken] at hinv
      exact hinv
    · -- A forwarder that has met the end of the channel knew that nothing was left to take.
      have hstay : p.channel.Drained → c.Drained := fun hd => by
        have hnil := hd.1
        rw [he.waiting] at hnil
        exact ⟨(List.append_eq_nil_iff.mp hnil).2, he.senders.trans hd.2⟩
      have hw₁ := (h.workers k w₁ hw₁).mono hstay
      rw [if_neg hk, List.append_nil] at htaken
      rw [← htaken] at hw₁
      exact hw₁
  · have hstatus := status_set hw { w with forwarder := fw, input := i } rfl c p.outlet
    exact h.reaper.mono fun k reason hk => (congrFun hstatus k).trans hk
  · have hforwarder := filterMap_set_perm (f := fun w : Worker σ =>
      reportOf .workerFeeder w.forwarder.result?) (b := { w with forwarder := fw, input := i }) hw
      (by simp [hgoing, reportOf])
    have hdrain := filterMap_set_eq (f := fun w : Worker σ =>
      reportOf .workerReader w.drain.result?) (b := { w with forwarder := fw, input := i }) hw rfl
    refine (h.reports.append_right _).trans ?_
    rw [reports, reports, hdrain, List.append_assoc]
    exact (append_perm hforwarder _).append_left _

theorem inv_child (hs : p.stepOf act now (.child n) = some (p', report?))
    (h : p.Inv settings inputs before emitted j) :
    p'.Inv settings inputs before emitted
      { note act j p p' (.child n) with reports := j.reports ++ report?.toList } := by
  obtain ⟨w, hw, hs⟩ := Option.bind_eq_some_iff.mp hs
  obtain ⟨⟨ch, i, o⟩, hstep, hs⟩ := Option.bind_eq_some_iff.mp hs
  cases hs
  obtain ⟨hn, -⟩ := List.getElem?_eq_some_iff.mp hw
  have hself : (p.workers.set n { w with child := ch, input := i, output := o })[n]? =
      some { w with child := ch, input := i, output := o } := List.getElem?_set_self hn
  have hnote : note act j p
      { p with workers := p.workers.set n { w with child := ch, input := i, output := o } }
        (.child n) =
      { j with transcripts := fun k =>
                if k = n then
                  w.transcribe act (j.transcripts n) { w with child := ch, input := i, output := o }
                else j.transcripts k } := by
    simp only [note, hw, hself]
  rw [hnote]
  refine ⟨h.sending.congr rfl rfl rfl rfl, h.waiting, ?_, h.takers, fun k w₁ hw₁ => ?_, h.written,
    h.writers, h.output, ?_, ?_⟩
  · rw [List.length_set]
    exact h.count
  · rcases getElem?_set_cases hw₁ with ⟨rfl, rfl⟩ | ⟨hk, hw₁⟩
    · have hinv := Worker.inv_child hstep (h.workers k w hw)
      simp only [if_true]
      exact hinv
    · simp only [if_neg hk]
      exact h.workers k w₁ hw₁
  · refine h.reaper.mono fun k reason hk => ?_
    -- A child that has ended takes no step, so it is another one.
    have hne : n ≠ k := by
      rintro rfl
      rw [status, hw] at hk
      have hgoing := Child.going_of_step hstep
      simp only [Child.status, hgoing] at hk
      cases hk
    rw [status, List.getElem?_set_ne hne]
    exact hk
  · have hforwarder := filterMap_set_eq (f := fun w : Worker σ =>
      reportOf .workerFeeder w.forwarder.result?)
      (b := { w with child := ch, input := i, output := o })
      hw rfl
    have hdrain := filterMap_set_eq (f := fun w : Worker σ =>
      reportOf .workerReader w.drain.result?) (b := { w with child := ch, input := i, output := o })
      hw rfl
    rw [reports, hforwarder, hdrain, Option.toList_none, List.append_nil]
    exact h.reports

theorem inv_drain (hs : p.stepOf act now (.drain n) = some (p', report?))
    (h : p.Inv settings inputs before emitted j) :
    ∃ emitted, p'.Inv settings inputs before emitted
      { note act j p p' (.drain n) with reports := j.reports ++ report?.toList } := by
  obtain ⟨w, hw, hs⟩ := Option.bind_eq_some_iff.mp hs
  obtain ⟨⟨d, q, o⟩, hstep, hs⟩ := Option.bind_eq_some_iff.mp hs
  cases hs
  obtain ⟨hn, -⟩ := List.getElem?_eq_some_iff.mp hw
  have hgoing := Drain.going_of_step hstep
  obtain ⟨more, hinv, he, -⟩ := Worker.inv_drain hstep (h.workers n w hw)
  have hcount : o.pieces.length - p.outlet.pieces.length = more.length := by
    rw [he.pieces, Nat.add_sub_cancel_left]
  have hnote : note act j p
      { p with outlet := o, workers := p.workers.set n { w with drain := d, output := q } }
        (.drain n) = { j with written := j.written ++ List.replicate more.length n } := by
    simp only [note, hcount]
  rw [hnote]
  refine ⟨emitted ++ more.map (n, ·), h.sending.congr rfl rfl rfl rfl, h.waiting, ?_, h.takers,
    fun k w₁ hw₁ => ?_, ?_, fun k hk => ?_, ?_, ?_, ?_⟩
  · rw [List.length_set]
    exact h.count
  · rw [writtenBy_append]
    rcases getElem?_set_cases hw₁ with ⟨rfl, rfl⟩ | ⟨hk, hw₁⟩
    · rw [if_pos rfl]
      exact hinv
    · rw [if_neg hk, List.append_nil]
      exact h.workers k w₁ hw₁
  · rw [List.map_append, h.written, List.map_map, ← List.map_const']
    rfl
  · rcases List.mem_append.mp hk with hk | hk
    · exact h.writers k hk
    · rw [List.eq_of_mem_replicate hk, ← h.count]
      exact hn
  · show o.written = _
    rw [he.written, h.output, List.map_append, List.flatten_append, List.append_assoc,
      List.map_map]
    rfl
  · have hstatus := status_set hw { w with drain := d, output := q } rfl p.channel o
    exact h.reaper.mono fun k reason hk => (congrFun hstatus k).trans hk
  · have hforwarder := filterMap_set_eq (f := fun w : Worker σ =>
      reportOf .workerFeeder w.forwarder.result?) (b := { w with drain := d, output := q }) hw rfl
    have hdrain := filterMap_set_perm (f := fun w : Worker σ =>
      reportOf .workerReader w.drain.result?) (b := { w with drain := d, output := q }) hw
      (by simp [hgoing, reportOf])
    refine (h.reports.append_right _).trans ?_
    rw [reports, reports, hforwarder, List.append_assoc, List.append_assoc]
    exact ((append_perm hdrain _).append_left _).append_left _

theorem inv_reaper (hs : p.stepOf act now .reaper = some (p', report?))
    (h : p.Inv settings inputs before emitted j) :
    p'.Inv settings inputs before emitted { j with reports := j.reports ++ report?.toList } := by
  obtain ⟨r, hstep, hs⟩ := Option.bind_eq_some_iff.mp hs
  cases hs
  refine ⟨h.sending.congr rfl rfl rfl rfl, h.waiting, h.count, h.takers, h.workers, h.written,
    h.writers, h.output, Reaper.step_inv hstep h.reaper, ?_⟩
  have hnone : reaperReport? p.reaper = none := by
    rw [reaperReport?, Reaper.going_of_step hstep]
    rfl
  have hreports := h.reports
  rw [reports, hnone, Option.toList_none, List.append_nil] at hreports
  refine (hreports.append_right _).trans ?_
  rw [reports, List.append_assoc, List.append_assoc]

theorem reaches_inv {s : Pool σ} (hr : Reaches act s p j)
    (h : s.Inv settings inputs before [] {}) :
    ∃ emitted, p.Inv settings inputs before emitted j := by
  induction hr with
  | start => exact ⟨[], h⟩
  | step _ now actor hs ih =>
    obtain ⟨emitted, hinv⟩ := ih
    cases actor with
    | owner => exact ⟨_, inv_owner hs hinv⟩
    | intake n => exact ⟨_, inv_intake hs hinv⟩
    | forwarder n => exact ⟨_, inv_forwarder hs hinv⟩
    | child n => exact ⟨_, inv_child hs hinv⟩
    | drain n => exact inv_drain hs hinv
    | reaper => exact ⟨_, inv_reaper hs hinv⟩

end Pool

end Coprocess
