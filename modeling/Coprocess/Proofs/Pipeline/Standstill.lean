import Coprocess.Proofs.Pipeline.StreamingChild

/-!
# Standstill

A source with a cache feeds a clerk unit by unit, up to as many repeats in a row as the queue holds.
Then the collector sees the queue empty and looks for output, the feeder fills the queue with the
repeats, and all three wait for each other.

* `Pipeline.AtRest`: all that was fed is answered and delivered;
* **`Pipeline.goes_parcel`**: a pipeline at rest feeds the next unit and is at rest again;
* **`Pipeline.stuck_of_repeats`**: the repeats bring it to a standstill;
* **`Pipeline.deadlock_free_iff`**: the inputs on which no pipeline gets stuck.
-/

namespace Coprocess

/-! ## Units of a cache -/

namespace Source

variable {key : CacheKey} {s s' : Source} {r : Except Failure Parcel}

theorem next_cache (hs : s.kind = .cache key) (h : s.next = some (r, s')) :
    s'.kind = .cache key ∧ ∃ slot payload, r = .ok ⟨.cached slot, payload⟩ := by
  obtain ⟨line, -, -, hd, hkind⟩ := next_eq_some h
  refine ⟨hkind.trans hs, ?_⟩
  rw [hs, describe] at hd
  split at hd
  · exact ⟨_, _, (congrArg Prod.fst hd).symm⟩
  · exact ⟨_, _, (congrArg Prod.fst hd).symm⟩

theorem keys_ne_nil_of_repeat {p : Parcel} (hs : s.kind = .cache key)
    (h : s.next = some (.ok p, s')) (hp : p.payload = []) : s.keys ≠ [] := by
  intro hk
  obtain ⟨-, slot, payload, hr⟩ := next_cache hs h
  cases hr
  have hnone : Keyed s.keys {} := hk ▸ keyed_nil
  obtain ⟨hfair, -⟩ := next_fair h hnone
  have hcount : countLf payload = 1 := hfair.count
  rw [show payload = [] from hp] at hcount
  cases hcount

/-- A line is sent for a unit of a cache exactly when the unit takes one. -/
theorem Fair.cached {slot : Nat} {payload : Bytes} {slots : Slots}
    (h : Fair ⟨.cached slot, payload⟩ slots) :
    (payload = [] ∧ Descriptor.expected slots (.cached slot) = 0) ∨
      (payload ≠ [] ∧ countLf payload = 1 ∧ Descriptor.expected slots (.cached slot) = 1) := by
  obtain ⟨ht, hc⟩ := h
  have hle : Descriptor.expected slots (.cached slot) ≤ 1 := by
    unfold Descriptor.expected
    simp only
    split_ifs <;> omega
  by_cases hp : payload = []
  · subst hp
    exact .inl ⟨rfl, hc.symm⟩
  · have hpos : countLf payload ≠ 0 := fun h0 => hp (Terminated.eq_nil_of_countLf (s := []) ht h0)
    have he : Descriptor.expected slots (.cached slot) = countLf payload := hc.symm
    exact .inr ⟨hp, by omega, by omega⟩

end Source

namespace Pipeline

variable {s₀ : Pipeline (Option Nat)} {most fed room n unit : Nat} {key : CacheKey}
  {s s' : Source} {r : Parcel} {payload : Bytes} {slots : Slots} {sink : Sink}
  {c : Child (Option Nat)} {k : Collector} {f : Feeder} {q : Queue Descriptor} {i o : Pipe}

/-! ## What each of them does for a unit -/

theorem goes_offer
    (h : Goes (clerk most) s₀ ⟨{ source := s, flushEvery := 1, fed }, c, k, q, i, o⟩)
    (hn : s.next = some (.ok r, s')) (hc : q.consuming = true) (hf : q.isFull = false) :
    Goes (clerk most) s₀
      ⟨{ source := s', flushEvery := 1, fed := fed + 1, phase := .writing r.payload }, c, k,
        { q with waiting := q.waiting.push (.item r.descriptor) }, i, o⟩ := by
  have hfetch := h.feeder
    (f := { source := s', flushEvery := 1, fed := fed + 1, phase := .offering r })
    (q := q) (i := i) (by simp [Feeder.step, Feeder.stepPhase, Writer.isIdle, hn])
  refine hfetch.feeder ?_
  simp [Feeder.step, Feeder.stepPhase, Writer.isIdle, Feeder.publish, Queue.send, hc, hf]

theorem goes_skip
    (h : Goes (clerk most) s₀
      ⟨{ source := s, flushEvery := 1, fed, phase := .writing [] }, c, k, q, i, o⟩) :
    Goes (clerk most) s₀ ⟨{ source := s, flushEvery := 1, fed }, c, k, q, i, o⟩ :=
  h.feeder rfl

theorem write_all (hne : payload ≠ []) (hroom : payload.length ≤ room) :
    ({ capacity := room } : Pipe).write payload =
      .moved payload.length { bytes := payload.toArray, capacity := room } := by
  have hpos := List.length_pos_iff.mpr hne
  have hr : ({ capacity := room } : Pipe).room = room := rfl
  rw [Pipe.write, hr, List.take_of_length_le hroom]
  simp
  omega

theorem goes_writer {v w : Writer} {j : Pipe}
    (h : Goes (clerk most) s₀ ⟨{ f with writer := v }, c, k, q, i, o⟩) (hb : v.isIdle = false)
    (hs : v.step i = .moved w j) :
    Goes (clerk most) s₀ ⟨{ f with writer := w }, c, k, q, j, o⟩ := by
  refine h.feeder ?_
  rw [Feeder.step, hb]
  simp [Feeder.stepWriter, hs]

theorem goes_sending (hne : payload ≠ []) (hroom : payload.length ≤ room)
    (h : Goes (clerk most) s₀
      ⟨{ f with writer := { call := .sending payload } }, c, k, q, { capacity := room }, o⟩) :
    Goes (clerk most) s₀
      ⟨{ f with writer := {} }, c, k, q, { bytes := payload.toArray, capacity := room }, o⟩ := by
  have hsent := goes_writer (w := { call := .sending [] })
    (j := { bytes := payload.toArray, capacity := room }) h rfl
    (by simp [Writer.step, hne, write_all hne hroom])
  exact goes_writer hsent rfl rfl

/-- A writer that holds nothing writes some bytes: it holds them, or they are in the pipe. -/
theorem goes_call (hne : payload ≠ []) (hroom : payload.length ≤ room)
    (h : Goes (clerk most) s₀
      ⟨{ f with writer := Writer.write {} payload }, c, k, q, { capacity := room }, o⟩) :
    Goes (clerk most) s₀
        ⟨{ f with writer := { held := payload.toArray } }, c, k, q, { capacity := room }, o⟩ ∨
      Goes (clerk most) s₀
        ⟨{ f with writer := {} }, c, k, q, { bytes := payload.toArray, capacity := room }, o⟩ := by
  have hspare : Writer.capacity - ({} : Writer).held.size = Writer.capacity := rfl
  have hplace (hle : Writer.capacity ≤ payload.length) :
      Writer.place {} payload = { call := .sending payload } := if_pos hle
  by_cases hlt : payload.length < Writer.capacity
  · left
    have hhold : Writer.write {} payload = { held := payload.toArray } := by
      simp [Writer.write, hlt, Writer.hold]
    rwa [hhold] at h
  right
  refine goes_sending hne hroom ?_
  by_cases hgt : Writer.capacity < payload.length
  · have hmake : Writer.write {} payload = { call := .makingRoom payload } := by
      simp [Writer.write, hlt, hgt]
    rw [hmake] at h
    refine goes_writer h rfl ?_
    rw [← hplace (by omega)]
    rfl
  · have hdirect : Writer.write {} payload = { call := .sending payload } := by
      rw [← hplace (by omega)]
      simp [Writer.write, hlt, hgt]
    rwa [hdirect] at h

theorem goes_flush (hne : payload ≠ []) (hroom : payload.length ≤ room)
    (h : Goes (clerk most) s₀ ⟨{ f with writer := { held := payload.toArray, call := .flushing } },
      c, k, q, { capacity := room }, o⟩) :
    Goes (clerk most) s₀
      ⟨{ f with writer := {} }, c, k, q, { bytes := payload.toArray, capacity := room }, o⟩ := by
  have hr : ({ capacity := room } : Pipe).room = room := rfl
  have htake : payload.take room = payload := List.take_of_length_le hroom
  have hsent := goes_writer (w := { call := .flushing })
    (j := { bytes := payload.toArray, capacity := room }) h rfl
    (by simp [Writer.step, hne, hr, htake, write_all hne hroom])
  exact goes_writer hsent rfl rfl

/-- The feeder writes the line of a unit and flushes it. -/
theorem goes_write (hne : payload ≠ []) (hroom : payload.length ≤ room)
    (h : Goes (clerk most) s₀ ⟨{ source := s, flushEvery := 1, fed, phase := .writing payload },
      c, k, q, { capacity := room }, o⟩) :
    Goes (clerk most) s₀ ⟨{ source := s, flushEvery := 1, fed }, c, k, q,
      { bytes := payload.toArray, capacity := room }, o⟩ := by
  have hcall := h.feeder
    (f := { source := s, flushEvery := 1, fed, phase := .counting,
            writer := Writer.write {} payload })
    (q := q) (i := { capacity := room })
    (by simp [Feeder.step, Feeder.stepPhase, Writer.isIdle, hne])
  let counting : Feeder := { source := s, flushEvery := 1, fed, phase := .counting }
  let fetching : Feeder := { source := s, flushEvery := 1, fed }
  rcases goes_call (f := counting) hne hroom hcall with hheld | hsent
  · exact goes_flush (f := fetching) hne hroom (hheld.feeder rfl)
  · exact goes_writer (f := fetching) (hsent.feeder rfl) rfl rfl

theorem goes_answer (hne : payload ≠ []) (hroom : payload.length ≤ room)
    (hone : countLf payload = 1)
    (h : Goes (clerk room) s₀ ⟨f, { state := some 0 }, k, q,
      { bytes := payload.toArray, capacity := room }, {}⟩) :
    Goes (clerk room) s₀ ⟨f, { state := some 0 }, k, q, { capacity := room },
      { bytes := #[lf] }⟩ := by
  have htake : payload.take room = payload := List.take_of_length_le hroom
  have hread : ({ bytes := payload.toArray, capacity := room } : Pipe).read room =
      .data payload { capacity := room } := by
    simp [Pipe.read, hne, hroom, htake]
  have htaken := h.child (c := { state := some 1 }) (i := { capacity := room }) (o := {})
    (by simp [Child.step, clerk, Child.stepRead, hread, hone, Child.goTo])
  exact (htaken.child rfl).child rfl

theorem goes_take {phase : Collector.Phase} {d : Descriptor}
    (hw : q.waiting.toList = [.item d]) (hp : phase = .watching ∨ phase = .consuming)
    (h : Goes (clerk most) s₀ ⟨f, c, { sink, slots, unit, phase }, q, i, o⟩) :
    ∃ waiting : Fifo (Message Descriptor), waiting.toList = [] ∧
      Goes (clerk most) s₀ ⟨f, c,
        { sink, slots, unit := unit + 1, phase := .gathering d (d.expected slots) [] },
        { q with waiting }, i, o⟩ := by
  have hready : Goes (clerk most) s₀
      ⟨f, c, { sink, slots, unit, phase := .consuming }, q, i, o⟩ := by
    rcases hp with rfl | rfl
    · have hsome : q.waiting.isEmpty = false := by
        rw [Bool.eq_false_iff, Ne, Fifo.isEmpty_iff, hw]
        simp
      refine h.collector ?_
      simp [Collector.step, hsome]
    · exact h
  rcases q.receive_cases with ⟨m, waiting, hm, hr⟩ | ⟨he, -⟩ | ⟨he, -⟩
  · rw [hw] at hm
    obtain ⟨rfl, he⟩ := List.cons.inj hm
    refine ⟨waiting, he.symm, hready.collector ?_⟩
    simp [Collector.step, hr]
  · simp [hw] at he
  · simp [hw] at he

theorem goes_gather {d : Descriptor}
    (h : Goes (clerk most) s₀ ⟨f, c, { sink, slots, unit, phase := .gathering d 1 [] }, q, i,
      { bytes := #[lf] }⟩) :
    Goes (clerk most) s₀
      ⟨f, c, { sink, slots, unit, phase := .gathering d 0 [[]] }, q, i, {}⟩ := by
  have hread : LineReader.readLine {} { bytes := #[lf] } = .line [] {} {} := rfl
  refine h.collector ?_
  simp [Collector.step, hread]

theorem goes_deliver {d : Descriptor} {ls : List Bytes} (hl : sink.outlet.limit = none)
    (h : Goes (clerk most) s₀
      ⟨f, c, { sink, slots, unit, phase := .gathering d 0 ls }, q, i, o⟩) :
    ∃ after : Sink, after.outlet.limit = none ∧
      Goes (clerk most) s₀ ⟨f, c,
        { sink := after, slots := (d.assemble ls.reverse slots).2, unit, phase := .watching },
        q, i, o⟩ := by
  rcases Sink.writeUnit_cases sink (d.assemble ls.reverse slots).1 with ⟨after, hw, ha⟩ | ⟨_, -, hs⟩
  · refine ⟨after, ha.outlet.1.trans hl, h.collector ?_⟩
    simp [Collector.step, Collector.deliver, hw]
  · rw [hl] at hs
    cases hs

/-! ## Unit by unit -/

/-- All that was fed is answered and delivered, and the collector has not looked for output yet. -/
def AtRest (room n : Nat) (s : Source) (p : Pipeline (Option Nat)) : Prop :=
  ∃ (fed unit : Nat) (sink : Sink) (slots : Slots) (phase : Collector.Phase)
    (waiting : Fifo (Message Descriptor)),
    p = ⟨{ source := s, flushEvery := 1, fed }, { state := some 0 }, { sink, slots, unit, phase },
      { capacity := some n, waiting }, { capacity := room }, {}⟩ ∧
    waiting.toList = [] ∧ sink.outlet.limit = none ∧ Source.Keyed s.keys slots ∧
    (phase = .watching ∨ phase = .consuming ∧ s.keys = [])

/-- **A pipeline at rest feeds the next unit**, the clerk answers, the collector delivers the unit,
and the pipeline is at rest again. -/
theorem goes_parcel {p : Pipeline (Option Nat)} (h : Goes (clerk room) s₀ p)
    (hp : AtRest room n s p) (hpos : 0 < n) (hs : s.kind = .cache key)
    (hn : s.next = some (.ok r, s')) (hroom : r.payload.length ≤ room) :
    ∃ p', Goes (clerk room) s₀ p' ∧ AtRest room n s' p' := by
  obtain ⟨fed, unit, sink, slots, phase, waiting, rfl, hw, hl, hk, hph⟩ := hp
  obtain ⟨-, slot, payload, hr⟩ := Source.next_cache hs hn
  cases hr
  obtain ⟨hfair, hk'⟩ := Source.next_fair hn hk
  have hoffered := goes_offer h hn rfl (Queue.isFull_eq_false rfl (by rw [hw]; exact hpos))
  have hqueued : (waiting.push (.item (.cached slot))).toList = [Message.item (.cached slot)] := by
    rw [Fifo.toList_push, hw, List.nil_append]
  have hready : phase = .watching ∨ phase = .consuming := hph.imp id And.left
  rcases hfair.cached with ⟨rfl, he⟩ | ⟨hne, hone, he⟩
  · obtain ⟨_, hw', htaken⟩ := goes_take hqueued hready (goes_skip hoffered)
    rw [he] at htaken
    obtain ⟨_, hl', hdelivered⟩ := goes_deliver hl htaken
    exact ⟨_, hdelivered, _, _, _, _, _, _, rfl, hw', hl', hk', .inl rfl⟩
  · have hanswered := goes_answer hne hroom hone (goes_write hne hroom hoffered)
    obtain ⟨_, hw', htaken⟩ := goes_take hqueued hready hanswered
    rw [he] at htaken
    obtain ⟨_, hl', hdelivered⟩ := goes_deliver hl (goes_gather htaken)
    exact ⟨_, hdelivered, _, _, _, _, _, _, rfl, hw', hl', hk', .inl rfl⟩

theorem goes_parcels {done rest : List Parcel} {p : Pipeline (Option Nat)} (hpos : 0 < n)
    (hs : s.kind = .cache key) (h : Goes (clerk room) s₀ p) (hp : AtRest room n s p)
    (hall : s.parcels = done ++ rest) (hroom : ∀ r ∈ done, r.payload.length ≤ room) :
    ∃ s' p', Goes (clerk room) s₀ p' ∧ AtRest room n s' p' ∧ s'.kind = .cache key ∧
      s'.parcels = rest := by
  induction done generalizing s p with
  | nil => exact ⟨s, p, h, hp, hs, hall⟩
  | cons r done ih =>
    obtain ⟨s', hn, hall'⟩ := Source.next_of_parcels hall
    obtain ⟨p', h', hp'⟩ := goes_parcel h hp hpos hs hn (hroom r List.mem_cons_self)
    obtain ⟨hs', -⟩ := Source.next_cache hs hn
    exact ih hs' h' hp' hall' fun q hq => hroom q (List.mem_cons_of_mem r hq)

/-! ## The standstill -/

theorem goes_peek {p : Pipeline (Option Nat)} (h : Goes (clerk most) s₀ p)
    (hp : AtRest room n s p) (hkeys : s.keys ≠ []) :
    ∃ (fed unit : Nat) (sink : Sink) (slots : Slots) (waiting : Fifo (Message Descriptor)),
      waiting.toList = [] ∧
      Goes (clerk most) s₀ ⟨{ source := s, flushEvery := 1, fed }, { state := some 0 },
        { sink, slots, unit, phase := .peeking }, { capacity := some n, waiting },
        { capacity := room }, {}⟩ := by
  obtain ⟨fed, unit, sink, slots, phase, waiting, rfl, hw, -, -, rfl | ⟨-, hnone⟩⟩ := hp
  · have hempty : waiting.isEmpty = true := by rw [Fifo.isEmpty_iff, hw]
    refine ⟨fed, unit, sink, slots, waiting, hw, h.collector ?_⟩
    simp [Collector.step, hempty]
  · exact absurd hnone hkeys

/-- The feeder goes on alone with repeats as long as the queue has room. -/
theorem goes_repeats {repeats rest : List Parcel} (hs : s.kind = .cache key)
    (hall : s.parcels = repeats ++ rest) (hrep : ∀ r ∈ repeats, r.payload = [])
    (hcap : q.capacity = some n) (hcons : q.consuming = true)
    (hle : q.waiting.toList.length + repeats.length ≤ n)
    (h : Goes (clerk most) s₀ ⟨{ source := s, flushEvery := 1, fed }, c, k, q, i, o⟩) :
    ∃ (s' : Source) (fed' : Nat) (waiting : Fifo (Message Descriptor)),
      s'.kind = .cache key ∧
      waiting.toList.length = q.waiting.toList.length + repeats.length ∧
      Goes (clerk most) s₀ ⟨{ source := s', flushEvery := 1, fed := fed' }, c, k,
        { q with waiting }, i, o⟩ := by
  induction repeats generalizing s fed q with
  | nil => exact ⟨s, fed, q.waiting, hs, rfl, h⟩
  | cons r repeats ih =>
    obtain ⟨s', hn, hall'⟩ := Source.next_of_parcels hall
    obtain ⟨hs', -⟩ := Source.next_cache hs hn
    rw [List.length_cons] at hle
    have hoffered := goes_offer h hn hcons (Queue.isFull_eq_false hcap (by omega))
    rw [hrep r List.mem_cons_self] at hoffered
    let offered : Queue Descriptor := { q with waiting := q.waiting.push (.item r.descriptor) }
    have hlen : offered.waiting.toList.length = q.waiting.toList.length + 1 := by
      rw [Fifo.toList_push, List.length_append, List.length_singleton]
    obtain ⟨s'', fed', waiting, hs'', hw, hgoes⟩ :=
      ih (q := offered) hs' hall' (fun q hq => hrep q (List.mem_cons_of_mem r hq)) hcap hcons
        (by omega) (goes_skip hoffered)
    refine ⟨s'', fed', waiting, hs'', ?_, hgoes⟩
    rw [hw, hlen, List.length_cons]
    omega

/-- At a full queue the feeder flushes and waits, with the next descriptor or with the end
marker. -/
theorem goes_wait (hs : s.kind = .cache key) (hfull : q.isFull = true)
    (hcons : q.consuming = true)
    (h : Goes (clerk most) s₀ ⟨{ source := s, flushEvery := 1, fed }, c, k, q, i, o⟩) :
    ∃ f : Feeder, f.result? = none ∧ f.step q i = none ∧
      Goes (clerk most) s₀ ⟨f, c, k, q, i, o⟩ := by
  have hsend (m : Message Descriptor) : q.send m = .full := by simp [Queue.send, hcons, hfull]
  cases hn : s.next with
  | none =>
    have hending := h.feeder
      (f := { source := s, flushEvery := 1, fed, phase := .ending, writer := Writer.flush {} })
      (q := q) (i := i) (by simp [Feeder.step, Feeder.stepPhase, Writer.isIdle, hn])
    let ending : Feeder := { source := s, flushEvery := 1, fed, phase := .ending }
    refine ⟨ending, rfl, ?_, goes_writer (f := ending) hending rfl rfl⟩
    simp [ending, Feeder.step, Feeder.stepPhase, Writer.isIdle, hsend]
  | some rs =>
    obtain ⟨r, s'⟩ := rs
    obtain ⟨-, slot, payload, rfl⟩ := Source.next_cache hs hn
    have hfetched := h.feeder
      (f := { source := s', flushEvery := 1, fed := fed + 1,
              phase := .offering ⟨.cached slot, payload⟩ })
      (q := q) (i := i) (by simp [Feeder.step, Feeder.stepPhase, Writer.isIdle, hn])
    let awaiting : Feeder := { source := s', flushEvery := 1, fed := fed + 1,
                               phase := .awaiting ⟨.cached slot, payload⟩ }
    have hoffered := hfetched.feeder (f := { awaiting with writer := Writer.flush {} })
      (q := q) (i := i)
      (by simp [awaiting, Feeder.step, Feeder.stepPhase, Writer.isIdle, Feeder.publish, hsend])
    refine ⟨awaiting, rfl, ?_, goes_writer (f := awaiting) hoffered rfl rfl⟩
    simp [awaiting, Feeder.step, Feeder.stepPhase, Writer.isIdle, Feeder.publish, hsend]

/-- A collector that looks for output, a clerk without input and a feeder that waits are stuck. -/
theorem stuck_of_wait (hf : f.result? = none) (hs : f.step q { capacity := room } = none) :
    Stuck (clerk most) ⟨f, { state := some 0 }, { sink, slots, unit, phase := .peeking }, q,
      { capacity := room }, {}⟩ := by
  refine ⟨.inl hf, fun now actor => ?_⟩
  cases actor with
  | feeder => simp [stepOf, hs]
  | child => simp [stepOf, Child.step, clerk, Child.stepRead, Pipe.read]
  | collector => rfl

/-- **Enough repeats in a row can bring a pipeline to a standstill**, whatever else is in the input,
if the child's input has room for each line. -/
theorem stuck_of_repeats {input : Bytes}
    (hroom : ∀ r ∈ Source.parcels { kind := .cache key, input }, r.payload.length ≤ room)
    (h : RepeatsInARow (Source.parcels { kind := .cache key, input }) (max 1 n)) :
    ∃ (p : Pipeline (Option Nat)) (t : Transcript),
      Reaches (clerk room) (Streams (clerk room)) (start { kind := .cache key, input }
        { flushEvery := 1, capacity := some n } { state := some 0 } {} { capacity := room } {})
        p t ∧ Stuck (clerk room) p := by
  obtain ⟨front, repeats, back, hall, hlen, hrep⟩ := h
  rw [List.append_assoc] at hall
  have hfront : ∀ r ∈ front, r.payload.length ≤ room := fun r hr =>
    hroom r (hall ▸ List.mem_append_left _ hr)
  let s₀ := start { kind := .cache key, input } { flushEvery := 1, capacity := some n }
    { state := some 0 } {} { capacity := room } {}
  have hrest₀ : AtRest room (max 1 n) { kind := .cache key, input } s₀ :=
    ⟨0, 0, {}, {}, .consuming, {}, rfl, rfl, rfl, Source.keyed_nil, .inr ⟨rfl, rfl⟩⟩
  obtain ⟨s, p, hgoes, hrest, hs, hall'⟩ :=
    goes_parcels (by omega) rfl (Goes.refl (clerk room) s₀) hrest₀ hall hfront
  -- The next unit is a repeat, so that a unit was delivered before.
  obtain ⟨r, others, rfl⟩ := List.exists_cons_of_ne_nil
    (List.ne_nil_of_length_pos (l := repeats) (by omega))
  have hkeys : s.keys ≠ [] := by
    obtain ⟨s', hn, -⟩ := Source.next_of_parcels hall'
    exact Source.keys_ne_nil_of_repeat hs hn (hrep r List.mem_cons_self)
  obtain ⟨fed, unit, sink, slots, waiting, hw, hpeeking⟩ := goes_peek hgoes hrest hkeys
  obtain ⟨s', fed', waiting', hs', hw', hfilled⟩ :=
    goes_repeats hs hall' hrep rfl rfl (by rw [hw, hlen]; simp) hpeeking
  have hfull : ({ capacity := some (max 1 n), waiting := waiting' } : Queue Descriptor).isFull =
      true := by
    rw [Queue.isFull_iff]
    refine ⟨_, rfl, ?_⟩
    rw [hw', hlen]
    omega
  obtain ⟨f, hf, hfs, t, hreach⟩ := goes_wait hs' hfull rfl hfilled
  have hbegin := inv_begin { kind := .cache key, input } { flushEvery := 1, capacity := some n }
    ({ state := some 0 } : Child (Option Nat)) {} room 65536
  obtain ⟨-, hstreams⟩ := streams_clerk hreach hbegin
    ⟨by simp, rfl, rfl, rfl, rfl, Nat.zero_le _, Nat.le_refl _, rfl⟩
  exact ⟨_, t, hstreams, stuck_of_wait hf hfs⟩

/-- **When deadlock is possible.** With a cache no pipeline with a streaming child ever gets stuck,
whatever the child, the flush interval and the pipes, exactly when the queue is unbounded or the
input has fewer repeats in a row than the queue holds. -/
theorem deadlock_free_iff (key : CacheKey) (input : Bytes) (capacity : Option Nat) :
    (∀ (σ : Type) (act : σ → Act σ) (child : Child σ) (sink : Sink)
        (flushEvery inputCapacity outputCapacity : Nat) (p : Pipeline σ) (t : Transcript),
        0 < inputCapacity → 0 < outputCapacity →
        Reaches act (Streams act) (start { kind := .cache key, input } { flushEvery, capacity }
          child sink { capacity := inputCapacity } { capacity := outputCapacity }) p t →
        ¬ Stuck act p) ↔
      ∀ n, capacity = some n →
        ¬ RepeatsInARow (Source.parcels { kind := .cache key, input }) (max 1 n) := by
  constructor
  · rintro hfree n rfl hrep
    -- A pipe with room for the whole input has room for each line.
    let room := (payloads (Source.parcels { kind := .cache key, input })).length + 1
    obtain ⟨p, t, hreach, hstuck⟩ := stuck_of_repeats
      (fun r hr => Nat.le_succ_of_le (length_payload_le hr)) hrep
    exact hfree _ _ _ _ 1 room 65536 p t (Nat.succ_pos _) (by decide) hreach hstuck
  · intro hfew σ act child sink flushEvery inputCapacity outputCapacity p t hi ho hreach hstuck
    obtain ⟨n, hn, hrep⟩ := repeats_of_stuck (.cache key) input { flushEvery, capacity } child
      sink hi ho hreach hstuck
    exact hfew n hn hrep

/-- Two equal lines, a queue for one unit and pipes of 64 KiB. -/
theorem stuck_repeat :
    ∃ (p : Pipeline (Option Nat)) (t : Transcript),
      Reaches (clerk 65536) (Streams (clerk 65536))
        (start { kind := .cache {}, input := [97, lf, 97, lf] }
          { flushEvery := 1, capacity := some 1 } { state := some 0 } {} {} {}) p t ∧
      Stuck (clerk 65536) p := by
  have hfirst : Source.next { kind := .cache {}, input := [97, lf, 97, lf] } =
      some (.ok ⟨.cached 0, [97, lf]⟩,
        { kind := .cache {}, input := [97, lf], read := 1, keys := [[97]] }) := rfl
  have hsecond : Source.next { kind := .cache {}, input := [97, lf], read := 1, keys := [[97]] } =
      some (.ok ⟨.cached 0, []⟩,
        { kind := .cache {}, input := [], read := 2, keys := [[97]] }) := rfl
  have hall : Source.parcels { kind := .cache {}, input := [97, lf, 97, lf] } =
      [⟨.cached 0, [97, lf]⟩, ⟨.cached 0, []⟩] := by
    rw [Source.parcels_of_ok hfirst, Source.parcels_of_ok hsecond, (Source.of_none rfl).1]
  refine stuck_of_repeats ?_
    ⟨[⟨.cached 0, [97, lf]⟩], [⟨.cached 0, []⟩], [], hall, rfl, by simp⟩
  rw [hall]
  simp

end Pipeline

end Coprocess
