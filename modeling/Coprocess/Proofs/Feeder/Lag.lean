import Coprocess.Proofs.Feeder.Publication

/-!
# How far a feeder lags behind

A feeder counts the units with lines that it has written since its last flush of this kind. What
its writer pushes out by itself, or before it waits for room in the queue, is not counted, so the
count is only a bound of what is held back.

* `Feeder.asks`: when a feeder asks its source;
* `Feeder.Pace`, `Feeder.pace_step`: the count bounds what is held back, in every phase;
* **`Feeder.lag_bounded`**: what is held back when a feeder asks its source or waits for room.
-/

namespace Coprocess

/-! ## Feeders -/

namespace Feeder

/-- The next step of the feeder asks its source for a parcel. -/
def asks (f : Feeder) : Bool :=
  match f.phase with
  | .fetching => f.writer.isIdle
  | _ => false

/-- The lines of the first units of a source, unit by unit. -/
def announced (s₀ : Source) (n : Nat) : List Bytes := (s₀.parcels.take n).map Parcel.payload

/-- How a feeder that has sent these bytes keeps pace with its source. -/
def Pace (s₀ : Source) (sent : Bytes) (f : Feeder) : Prop :=
  match f.phase with
  | .fetching => f.pending < f.flushEvery ∧ f.writer.Trails (announced s₀ f.fed) sent f.pending
  | .offering _ | .awaiting _ =>
    f.pending < f.flushEvery ∧ f.writer.Trails (announced s₀ (f.fed - 1)) sent f.pending
  | .writing payload =>
    f.pending < f.flushEvery ∧ Behind (announced s₀ f.fed) sent (f.pending + filled [payload])
  | .counting => f.pending < f.flushEvery ∧ Behind (announced s₀ f.fed) sent (f.pending + 1)
  | .ending | .closing | .abandoning _ | .returned _ => True

section

variable {s₀ : Source} {published : List Parcel} {log : List (Message Descriptor)}
  {sent sent' : Bytes} {q q' : Queue Descriptor} {p p' : Pipe} {f f' : Feeder} {w : Writer}

theorem pace_new (s₀ : Source) (flushEvery : Nat) : (Feeder.new s₀ flushEvery).Pace s₀ [] :=
  ⟨Nat.lt_of_lt_of_le Nat.zero_lt_one (Nat.le_max_left 1 flushEvery), .inr (Behind.of_all rfl)⟩

theorem Course.announced_eq {atHand : List Parcel} {unwritten : Bytes} {source : Source} {fed : Nat}
    (h : Course s₀ published atHand sent unwritten source w fed) :
    announced s₀ fed = (published ++ atHand).map Parcel.payload := by
  rw [announced, h.parcels, h.fed, List.take_left]

theorem Course.announced_before {parcel : Parcel} {unwritten : Bytes} {source : Source} {fed : Nat}
    (h : Course s₀ published [parcel] sent unwritten source w fed) :
    announced s₀ (fed - 1) = published.map Parcel.payload := by
  have hfed : fed - 1 = published.length := by
    rw [h.fed, List.length_append, List.length_singleton, Nat.add_sub_cancel]
  rw [announced, h.parcels, hfed, List.append_assoc, List.take_left]

theorem Pace.moved (h : f.Pace s₀ sent) (hs : sent <+: sent')
    (he : f.writer.Emptying → w.Emptying) : { f with writer := w }.Pace s₀ sent' := by
  obtain ⟨source, flushEvery, writer, fed, pending, phase⟩ := f
  cases phase with
  | fetching | offering | awaiting => exact ⟨h.1, h.2.moved hs he⟩
  | writing | counting => exact ⟨h.1, h.2.mono hs (Nat.le_refl _)⟩
  | ending | closing | abandoning | returned => trivial

theorem pace_publish {parcel : Parcel} (hinv : f.Inv s₀ published log sent q p)
    (hpace : f.Pace s₀ sent) (hi : f.writer.call = .idle)
    (hp : f.phase = .offering parcel ∨ f.phase = .awaiting parcel) :
    f.pending < f.flushEvery ∧
      Behind (announced s₀ f.fed) sent (f.pending + filled [parcel.payload]) := by
  obtain ⟨source, flushEvery, writer, fed, pending, phase⟩ := f
  have hcourse : Course s₀ published [parcel] sent [] source writer fed := by
    rcases hp with rfl | rfl
    · exact hinv.1
    · exact hinv.1
  have htrails : pending < flushEvery ∧ writer.Trails (announced s₀ (fed - 1)) sent pending := by
    rcases hp with rfl | rfl
    · exact hpace
    · exact hpace
  have hall : sent ++ writer.backlog = (published.map Parcel.payload).flatten := by
    rw [← List.append_nil (sent ++ writer.backlog), hcourse.bytes, payloads, List.flatMap_def]
  rw [hcourse.announced_before] at htrails
  have hbehind := (htrails.2.of_idle hi hall).concat parcel.payload
  refine ⟨htrails.1, ?_⟩
  rw [hcourse.announced_eq, List.map_append]
  exact hbehind

/-- **The count bounds what is held back** after every step. -/
theorem pace_step (h : f.step q p = some (f', q', p')) (hinv : f.Inv s₀ published log sent q p)
    (hpace : f.Pace s₀ sent) (hs : sent <+: sent') : f'.Pace s₀ sent' := by
  cases move_of_step h with
  | push hi hw =>
    rcases Writer.step_cases hinv.tidy p with
      ⟨w', part, hw', -, -, he⟩ | ⟨hw', -⟩ | ⟨w', hw', -⟩ <;> rw [hw] at hw' <;> cases hw'
    exact hpace.moved hs he
  | publish hi hp =>
    obtain ⟨hlt, hbehind⟩ := pace_publish hinv hpace hi hp
    exact ⟨hlt, hbehind.mono hs (Nat.le_refl _)⟩
  | fetch hi hp =>
    simp only [Pace, hp] at hpace
    exact ⟨hpace.1, hpace.2.moved hs id⟩
  | await hi hp =>
    simp only [Pace, hp] at hpace
    exact ⟨hpace.1, .inl (Writer.emptying_flush _)⟩
  | skip hi hp =>
    simp only [Pace, hp] at hpace
    exact ⟨hpace.1, .inr (hpace.2.mono hs (Nat.le_refl _))⟩
  | @send payload hi hp =>
    simp only [Pace, hp] at hpace
    exact ⟨hpace.1, hpace.2.mono hs (Nat.add_le_add_left (filled_singleton_le payload) _)⟩
  | count hi hp hf =>
    simp only [Pace, hp] at hpace
    exact ⟨hf, .inr (hpace.2.mono hs (Nat.le_refl _))⟩
  | flush hi hp =>
    simp only [Pace, hp] at hpace
    exact ⟨Nat.zero_lt_of_lt hpace.1, .inl (Writer.emptying_flush _)⟩
  | runOut | finish | broken | brokenAgain | refuse | desert | desertEnd | close | leave => trivial

/-- A feeder that asks its source has published what its source has yielded so far, and the count
bounds what of it is held back. -/
theorem Inv.of_asks (hinv : f.Inv s₀ published log sent q p) (hpace : f.Pace s₀ sent)
    (ha : f.asks = true) :
    log = items published ∧ sent ++ f.writer.held.toList = payloads published ∧
      f.pending < f.flushEvery ∧ Behind (published.map Parcel.payload) sent f.pending := by
  unfold asks at ha
  unfold Inv at hinv
  unfold Pace at hpace
  cases hp : f.phase with
  | fetching =>
    simp only [hp] at ha hinv hpace
    obtain ⟨hcourse, hlog⟩ := hinv
    have hi := Writer.isIdle_iff.mp ha
    have hall := hcourse.bytes
    rw [List.append_nil] at hall
    have hannounced := hcourse.announced_eq
    rw [List.append_nil] at hannounced
    rw [hannounced] at hpace
    refine ⟨hlog, ?_, hpace.1, hpace.2.of_idle hi (hall.trans (List.flatMap_def ..))⟩
    rw [← Writer.backlog_of_idle hi, hall]
  | offering | awaiting | writing | counting | ending | closing | abandoning | returned =>
    simp [hp] at ha

theorem flushEvery_of_step (h : f.step q p = some (f', q', p')) : f'.flushEvery = f.flushEvery := by
  cases move_of_step h <;> rfl

end

/-! ## Scenes -/

namespace Scene

variable {s₀ : Source} {published : List Parcel} {s s' : Scene} {e : Event}

theorem next_pace (h : s.next e = some s') (hinv : s.Inv s₀ published)
    (hpace : s.feeder.Pace s₀ s.sent) :
    s'.feeder.Pace s₀ s'.sent ∧ s'.feeder.flushEvery = s.feeder.flushEvery := by
  cases e with
  | feeder =>
    obtain ⟨⟨f, q, p⟩, hs, rfl⟩ := Option.map_eq_some_iff.mp h
    obtain ⟨_, _, part, he, -⟩ := Feeder.step_inv hs hinv.feeder
    have hsent : s.sent <+: s.read ++ p.content := by
      rw [he.content, ← List.append_assoc]
      exact List.prefix_append _ part
    exact ⟨pace_step hs hinv.feeder hpace hsent, flushEvery_of_step hs⟩
  | receive =>
    unfold next at h
    rcases Queue.receive_cases s.queue with ⟨m, waiting, -, hr⟩ | ⟨-, -, hr⟩ | ⟨-, -, hr⟩ <;>
      simp only [hr] at h <;> cases h
    exact ⟨hpace, rfl⟩
  | read more =>
    unfold next at h
    cases hr : s.pipe.read (more + 1) with
    | data bytes pipe =>
      simp only [hr] at h
      cases h
      refine ⟨?_, rfl⟩
      rw [sent, (Pipe.read_data hr).1, ← List.append_assoc] at hpace
      exact hpace
    | empty | ended =>
      simp only [hr] at h
      cases h
  | desert | close =>
    cases h
    exact ⟨hpace, rfl⟩

theorem run_pace {es : List Event} (h : s.run es = some s') (hinv : s.Inv s₀ published)
    (hpace : s.feeder.Pace s₀ s.sent) :
    s'.feeder.Pace s₀ s'.sent ∧ s'.feeder.flushEvery = s.feeder.flushEvery := by
  induction es generalizing s published with
  | nil =>
    cases h
    exact ⟨hpace, rfl⟩
  | cons e es ih =>
    obtain ⟨t, hn, ht⟩ := run_cons h
    obtain ⟨_, htinv⟩ := next_inv hn hinv
    obtain ⟨htpace, htflush⟩ := next_pace hn hinv hpace
    obtain ⟨hpace', hflush'⟩ := ih ht htinv htpace
    exact ⟨hpace', hflush'.trans htflush⟩

end Scene

/-- **The lag is bounded.** Whatever happens at the other ends, when a feeder asks its source for
the next parcel, its writer holds bytes of the last units published only, and fewer of these than
`flushEvery` have lines. When it sends a message for which there may be no room, its writer holds
nothing and all that was published is sent; and there is nothing else that it waits for but room in
the queue and, while its writer is at work, in the pipe. -/
theorem lag_bounded {source : Source} {flushEvery room : Nat} {capacity : Option Nat}
    {events : List Event} {s : Scene}
    (h : (Scene.start source flushEvery capacity room).run events = some s) :
    ∃ published, published <+: source.parcels ∧
      (s.feeder.asks = true →
        s.queued = items published ∧ s.sent ++ s.feeder.writer.held.toList = payloads published ∧
          ∃ last, last <:+ published ∧ filled (last.map Parcel.payload) ≤ flushEvery - 1 ∧
            s.feeder.writer.held.toList <:+ payloads last) ∧
      (s.feeder.waits = true →
        s.queued = items published ∧ s.sent = payloads published ∧ s.feeder.writer.held = #[]) ∧
      (s.next .feeder = none → s.feeder.writer.call = .idle → s.feeder.result? = none →
        s.feeder.waits = true ∧ s.queue.isFull = true) := by
  have hstart := Scene.inv_start source flushEvery capacity room
  obtain ⟨published, hinv⟩ := Scene.run_inv h hstart
  obtain ⟨hpace, hflush⟩ := Scene.run_pace h hstart (pace_new source flushEvery)
  refine ⟨published, hinv.feeder.announced.1, fun ha => ?_, hinv.feeder.of_waits,
    fun hn hi hr => ?_⟩
  · obtain ⟨hlog, hall, hlt, hbehind⟩ := hinv.feeder.of_asks hpace ha
    obtain ⟨parts, ⟨before, hparts⟩, hle, hsuffix⟩ :=
      hbehind.kept_suffix (hall.trans (List.flatMap_def ..))
    obtain ⟨front, last, rfl, -, rfl⟩ := List.append_eq_map_iff.mp hparts
    have hnew : s.feeder.flushEvery = max 1 flushEvery := hflush
    refine ⟨hlog, hall, last, List.suffix_append front last, by omega, ?_⟩
    rwa [payloads, List.flatMap_def]
  · obtain ⟨hw, hf, -⟩ := waits_of_step_none (Option.map_eq_none_iff.mp hn)
      (Writer.isIdle_iff.mpr hi) hr
    exact ⟨hw, hf⟩

/-- Flushes after three units: two lines are held back when the feeder asks for the third, and none
when it waits for room behind the first. -/
theorem lag_bounded_narrow :
    let source : Source := { kind := .cache {}, input := Bytes.ofString "a\nb\nc\n" }
    let events : List Event := List.replicate 8 .feeder
    ∃ s t, (Scene.start source 3 none 64).run events = some s ∧ s.feeder.asks = true ∧
      s.sent = [] ∧ s.feeder.writer.held.toList = [97, lf, 98, lf] ∧
      (∃ last, last <:+ source.parcels.take 2 ∧ filled (last.map Parcel.payload) ≤ 2 ∧
        s.feeder.writer.held.toList <:+ payloads last) ∧
      (Scene.start source 3 (some 1) 64).run events = some t ∧ t.next .feeder = none ∧
      t.queue.isFull = true ∧ t.sent = [97, lf] ∧ t.feeder.writer.held = #[] := by
  intro source events
  have hs : ((Scene.start source 3 none 64).run events).map (fun s => (s.feeder.asks, s.sent,
      s.feeder.writer.held.toList, s.queued.length)) =
        some (true, [], [97, lf, 98, lf], 2) := by
    decide +kernel
  have ht : ((Scene.start source 3 (some 1) 64).run events).map (fun t => (t.sent,
      (t.next .feeder).isNone, t.feeder.writer.isIdle, t.feeder.result?.isNone)) =
        some ([97, lf], true, true, true) := by
    decide +kernel
  obtain ⟨s, hs, hse⟩ := Option.map_eq_some_iff.mp hs
  obtain ⟨t, ht, hte⟩ := Option.map_eq_some_iff.mp ht
  simp only [Prod.mk.injEq, Option.isNone_iff_eq_none, Writer.isIdle_iff] at hse hte
  obtain ⟨hasks, hsent, hheld, htwo⟩ := hse
  obtain ⟨hone, hstuck, hidle, hgoing⟩ := hte
  obtain ⟨published, ⟨rest, hp⟩, hask, -, -⟩ := lag_bounded hs
  obtain ⟨_, -, -, hwait, hblocked⟩ := lag_bounded ht
  obtain ⟨hlog, -, last, hlast, hle, hsuffix⟩ := hask hasks
  obtain ⟨hwaits, hfull⟩ := hblocked hstuck hidle hgoing
  have hlen : published.length = 2 := by
    rw [hlog] at htwo
    simpa using htwo
  refine ⟨s, t, hs, hasks, hsent, hheld, ⟨last, ?_, hle, hsuffix⟩, ht, hstuck, hfull, hone,
    (hwait hwaits).2.2⟩
  rwa [← hp, List.take_left' hlen]

end Feeder

end Coprocess
