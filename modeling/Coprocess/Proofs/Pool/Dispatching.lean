import Coprocess.Proofs.Pool.Forwarding

/-!
# Forwarders that share a channel

A forwarder takes its steps while others send into its channel, take records out of it and go away,
and while its pipe is read or closed.

* `Forwarder.tries`, `Forwarder.waits`: when a forwarder looks for a record, and when it waits for
  one;
* `Forwarder.Scene`: a forwarder with its channel and its pipe, and what it has taken from the
  channel;
* `Forwarder.Event`, `Forwarder.Scene.next`, `Forwarder.Scene.run`: a step of the forwarder or of
  somebody else, and any number of them;
* `Forwarder.Pace`, `Forwarder.pace_step`: how many records are not pushed out yet, in every phase;
* **`Forwarder.forwards_taken`**: what a forwarder pushes out, what it holds back, and when it ends.
-/

namespace Coprocess

namespace Forwarder

/-- The next step of the forwarder takes a record if one waits. -/
def tries (f : Forwarder) : Bool :=
  match f.phase with
  | .taking => f.writer.isIdle
  | _ => false

/-- The next step of the forwarder takes a record, and is not possible before one is there. -/
def waits (f : Forwarder) : Bool :=
  match f.phase with
  | .awaiting => f.writer.isIdle
  | _ => false

/-! ## Scenes -/

/-- A forwarder with its channel and its pipe, and what has left these. -/
structure Scene where
  forwarder : Forwarder
  channel : Channel Bytes
  pipe : Pipe
  /-- The records that the forwarder has taken from the channel. -/
  taken : List Bytes := []
  /-- The bytes that were read from the pipe. -/
  read : Bytes := []

/-- What can happen in a scene. -/
inductive Event
  | forwarder
  /-- Somebody sends a record. -/
  | send (record : Bytes)
  /-- Somebody else takes the record that waited longest. -/
  | receive
  /-- A sender makes another one. -/
  | addSender
  /-- A sender goes away. -/
  | dropSender
  /-- Another receiver goes away. -/
  | dropReceiver
  /-- At least one byte is read, and `more` beyond it at most. -/
  | read (more : Nat)
  /-- The read end of the pipe is closed. -/
  | close

namespace Scene

/-- All bytes that were put into the pipe. -/
def sent (s : Scene) : Bytes := s.read ++ s.pipe.content

/-- A forwarder at its start, beside a channel that others may have used before. -/
def start (channel : Channel Bytes) (flushEvery room : Nat) : Scene where
  forwarder := { flushEvery }
  channel
  pipe := { capacity := room }

/-- The scene after an event, or `none` while it cannot happen: a record is sent, or a sender added,
by a sender that is there. -/
def next (s : Scene) : Event → Option Scene
  | .forwarder => (s.forwarder.step s.channel s.pipe).map fun (forwarder, channel, pipe) =>
    let taken := s.channel.waiting.toList.take (s.channel.waiting.size - channel.waiting.size)
    { s with forwarder, channel, pipe, taken := s.taken ++ taken }
  | .send record =>
    if s.channel.senders = 0 then none
    else match s.channel.send record with
      | .accepted channel => some { s with channel }
      | _ => none
  | .receive =>
    match s.channel.receive with
    | .item _ channel => some { s with channel }
    | _ => none
  | .addSender =>
    if s.channel.senders = 0 then none
    else some { s with channel := { s.channel with senders := s.channel.senders + 1 } }
  | .dropSender => some { s with channel := s.channel.dropSender }
  | .dropReceiver => some { s with channel := s.channel.dropReceiver }
  | .read more =>
    match s.pipe.read (more + 1) with
    | .data bytes pipe => some { s with pipe, read := s.read ++ bytes }
    | _ => none
  | .close => some { s with pipe := s.pipe.closeReader }

/-- The scene after some events. -/
def run (s : Scene) : List Event → Option Scene
  | [] => some s
  | e :: es => (s.next e).bind fun s => s.run es

end Scene

/-! ## The pace of a forwarder -/

/-- How a forwarder that has taken the records `rs` and pushed out the bytes `sent` keeps pace. -/
def Pace (rs : List Bytes) (sent : Bytes) (p : Pipe) (f : Forwarder) : Prop :=
  match f.phase with
  | .taking =>
    f.fed = rs.length ∧ f.pending ≤ f.flushEvery - 1 ∧ f.writer.Trails rs sent f.pending
  | .awaiting => f.fed = rs.length ∧ f.pending = 0 ∧ f.writer.Emptying
  | .counting =>
    f.fed + 1 = rs.length ∧ f.pending ≤ f.flushEvery - 1 ∧ Behind rs sent (f.pending + 1)
  | .closing => f.fed = rs.length
  | .returned (.ok n) => n = rs.length
  | .abandoning e | .returned (.error e) => e = .io (.os .pipe) ∧ p.readable = false

section

variable {f f' : Forwarder} {c c' : Channel Bytes} {p p' : Pipe} {rs taken : List Bytes}
  {sent sent' part : Bytes} {w : Writer}

theorem pace_start (flushEvery room : Nat) :
    Pace [] [] { capacity := room } { flushEvery } :=
  ⟨rfl, Nat.zero_le _, .inr (Behind.of_all rfl)⟩

theorem Pace.moved (h : f.Pace rs sent p) (hs : sent <+: sent')
    (hr : p.readable = false → p'.readable = false) (he : f.writer.Emptying → w.Emptying) :
    { f with writer := w }.Pace rs sent' p' := by
  obtain ⟨flushEvery, writer, fed, pending, phase⟩ := f
  cases phase with
  | taking => exact ⟨h.1, h.2.1, h.2.2.moved hs he⟩
  | awaiting => exact ⟨h.1, h.2.1, he h.2.2⟩
  | counting => exact ⟨h.1, h.2.1, h.2.2.mono hs (Nat.le_refl _)⟩
  | closing => exact h
  | abandoning e => exact ⟨h.1, hr h.2⟩
  | returned result =>
    cases result with
    | ok n => exact h
    | error e => exact ⟨h.1, hr h.2⟩

theorem Inv.all_of_ready (hinv : f.Inv c rs sent p)
    (hp : f.phase = .taking ∨ f.phase = .awaiting) : sent ++ f.writer.backlog = rs.flatten := by
  have hgood : ¬ f.Fails := by
    rcases hp with hp | hp
    · exact not_fails_of_phase hp fun e => by simp
    · exact not_fails_of_phase hp fun e => by simp
  exact (hinv.kept.resolve_left hgood).1.symm

theorem Pace.ready (h : f.Pace rs sent p) (hinv : f.Inv c rs sent p) (hi : f.writer.call = .idle)
    (hp : f.phase = .taking ∨ f.phase = .awaiting) :
    f.fed = rs.length ∧ f.pending ≤ f.flushEvery - 1 ∧ Behind rs sent f.pending := by
  have hall := hinv.all_of_ready hp
  unfold Pace at h
  rcases hp with hp | hp <;> simp only [hp] at h
  · exact ⟨h.1, h.2.1, h.2.2.of_idle hi hall⟩
  · obtain ⟨hfed, hpending, hempty⟩ := h
    exact ⟨hfed, by omega, Writer.Trails.of_idle (.inl hempty) hi hall⟩

/-- **How many records are not pushed out yet** is bounded after every step. -/
theorem pace_step (h : f.step c p = some (f', c', p')) (hinv : f.Inv c rs sent p)
    (heffect : Effect c c' p p' taken part) (hpace : f.Pace rs sent p) :
    f'.Pace (rs ++ taken) (sent ++ part) p' := by
  have hs : sent <+: sent ++ part := List.prefix_append sent part
  have hnone (hw : c'.waiting = c.waiting) : taken = [] := by
    have hwaiting := heffect.waiting
    rw [hw] at hwaiting
    exact List.append_left_eq_self.mp hwaiting.symm
  have hread {w : Writer} (hw : f.writer.step p = .broken w) : p.readable = false := by
    rcases Writer.step_cases hinv.tidy p with ⟨_, _, hw', -⟩ | ⟨hw', -⟩ | ⟨_, -, -, hr, -⟩
    · rw [hw] at hw'
      cases hw'
    · rw [hw] at hw'
      cases hw'
    · exact hr
  cases move_of_step h with
  | push hi hw =>
    rw [hnone rfl, List.append_nil]
    rcases Writer.step_cases hinv.tidy p with
      ⟨w', part, hw', -, -, he⟩ | ⟨hw', -⟩ | ⟨w', hw', -⟩ <;> rw [hw] at hw' <;> cases hw'
    exact hpace.moved (List.prefix_append sent _) id he
  | broken hi hw => exact ⟨rfl, hread hw⟩
  | leaveBroken hi hw hp =>
    simp only [Pace, hp] at hpace
    exact hpace
  | @take record waiting hi hp hw =>
    obtain ⟨hfed, hpending, hbehind⟩ := hpace.ready hinv hi hp
    have htaken : taken = [record] := by
      have hwaiting := heffect.waiting
      rw [hw, ← List.singleton_append] at hwaiting
      exact (List.append_cancel_right hwaiting).symm
    rw [htaken]
    refine ⟨by rw [List.length_append, hfed, List.length_singleton], hpending, ?_⟩
    exact (hbehind.concat record).mono hs (Nat.add_le_add_left (filled_singleton_le record) _)
  | await hi hp hw =>
    rw [hnone rfl, List.append_nil]
    exact ⟨(hpace.ready hinv hi (.inl hp)).1, rfl, Writer.emptying_flush _⟩
  | close hi hp hd =>
    rw [hnone rfl, List.append_nil]
    exact (hpace.ready hinv hi hp).1
  | count hi hp hw =>
    rw [hnone rfl, List.append_nil]
    simp only [Pace, hp] at hpace
    obtain ⟨hfed, hpending, hbehind⟩ := hpace
    rcases hw with ⟨hlt, rfl, rfl⟩ | ⟨-, rfl, rfl⟩
    · exact ⟨hfed, Nat.le_sub_one_of_lt hlt, .inr (hbehind.mono hs (Nat.le_refl _))⟩
    · exact ⟨hfed, Nat.zero_le _, .inl (Writer.emptying_flush _)⟩
  | leave hi hp =>
    rw [hnone rfl, List.append_nil]
    simp only [Pace, hp] at hpace
    exact hpace
  | leaveFailed hi hp =>
    simp only [Pace, hp] at hpace
    exact hpace

theorem Pace.of_ok (h : f.Pace rs sent p) {n : Nat} (hr : f.result? = some (.ok n)) :
    n = rs.length := by
  simp only [Pace, phase_of_result? hr] at h
  exact h

theorem Pace.of_error (h : f.Pace rs sent p) {e : Failure} (hr : f.result? = some (.error e)) :
    e = .io (.os .pipe) ∧ p.readable = false := by
  simp only [Pace, phase_of_result? hr] at h
  exact h

theorem Inv.of_waits (hinv : f.Inv c rs sent p) (hpace : f.Pace rs sent p) (hw : f.waits = true) :
    sent = rs.flatten ∧ f.writer.held = #[] := by
  unfold waits at hw
  cases hp : f.phase with
  | awaiting =>
    simp only [hp] at hw
    simp only [Pace, hp] at hpace
    have hall := hinv.all_of_ready (.inr hp)
    have hempty := hpace.2.2.backlog_of_idle hw
    rw [hempty, List.append_nil] at hall
    rw [Writer.backlog_of_idle (Writer.isIdle_iff.mp hw)] at hempty
    exact ⟨hall, Array.toList_eq_nil_iff.mp hempty⟩
  | taking | counting | closing | abandoning | returned => simp [hp] at hw

theorem Inv.of_tries (hinv : f.Inv c rs sent p) (hpace : f.Pace rs sent p) (ht : f.tries = true) :
    sent ++ f.writer.held.toList = rs.flatten ∧ f.pending ≤ f.flushEvery - 1 ∧
      Behind rs sent f.pending := by
  unfold tries at ht
  cases hp : f.phase with
  | taking =>
    simp only [hp] at ht
    have hi := Writer.isIdle_iff.mp ht
    obtain ⟨-, hle, hbehind⟩ := hpace.ready hinv hi (.inl hp)
    refine ⟨?_, hle, hbehind⟩
    rw [← Writer.backlog_of_idle hi]
    exact hinv.all_of_ready (.inl hp)
  | awaiting | counting | closing | abandoning | returned => simp [hp] at ht

theorem flushEvery_of_step (h : f.step c p = some (f', c', p')) : f'.flushEvery = f.flushEvery := by
  cases move_of_step h <;> rfl

theorem waits_of_step_none (h : f.step c p = none) (hi : f.writer.isIdle = true)
    (hr : f.result? = none) : f.waits = true ∧ c.receive = .empty := by
  unfold step at h
  rw [hi, Bool.not_true, if_neg Bool.false_ne_true] at h
  cases hp : f.phase with
  | taking =>
    simp only [hp, take] at h
    split at h <;> cases h
  | awaiting =>
    simp only [hp, take] at h
    cases hc : c.receive with
    | empty => exact ⟨by simp only [waits, hp, hi], rfl⟩
    | item | disconnected =>
      simp only [hc] at h
      cases h
  | counting =>
    simp only [hp] at h
    split at h <;> cases h
  | closing | abandoning =>
    simp only [hp] at h
    cases h
  | returned result => simp [result?, hp] at hr

end

/-! ## What holds of a scene -/

namespace Scene

variable {s s' : Scene} {e : Event}

/-- What holds of a scene after any events. -/
structure Inv (s : Scene) : Prop where
  forwarder : s.forwarder.Inv s.channel s.taken s.sent s.pipe
  pace : s.forwarder.Pace s.taken s.sent s.pipe

theorem inv_start (channel : Channel Bytes) (flushEvery room : Nat) :
    (start channel flushEvery room).Inv :=
  ⟨Forwarder.inv_start channel flushEvery room, pace_start flushEvery room⟩

/-- What others do leaves the forwarder alone, and brings nothing back into a drained channel. -/
theorem Inv.others (h : s.Inv) {channel : Channel Bytes} {pipe : Pipe} {read : Bytes}
    (hc : s.channel.Drained → channel.Drained) (hp : read ++ pipe.content = s.sent)
    (hw : pipe.writable = s.pipe.writable) (hr : s.pipe.readable = false → pipe.readable = false) :
    { s with channel, pipe, read }.Inv := by
  have hforwarder : s.forwarder.Inv channel s.taken s.sent pipe := by
    have hmono := h.forwarder.mono hc
    exact ⟨hmono.tidy, hw.trans hmono.writable, hmono.idle, hmono.kept⟩
  have hpace : s.forwarder.Pace s.taken s.sent pipe := h.pace.moved (List.prefix_refl _) hr id
  rw [← hp] at hforwarder hpace
  exact ⟨hforwarder, hpace⟩

/-- **What holds of a scene** holds after every event. -/
theorem next_inv (h : s.next e = some s') (hinv : s.Inv) :
    s'.Inv ∧ s'.forwarder.flushEvery = s.forwarder.flushEvery := by
  -- A drained channel has no sender that could send into it, or add another one.
  have hdrained {channel : Channel Bytes} (hs : s.channel.senders ≠ 0) :
      s.channel.Drained → channel.Drained := fun hd => absurd hd.2 hs
  cases e with
  | forwarder =>
    obtain ⟨⟨f, c, p⟩, hs, rfl⟩ := Option.map_eq_some_iff.mp h
    obtain ⟨taken, part, hf, he⟩ := Forwarder.step_inv hs hinv.forwarder
    have htaken : s.channel.waiting.toList.take (s.channel.waiting.size - c.waiting.size) =
        taken := by
      rw [← Fifo.length_toList, ← Fifo.length_toList, he.waiting, List.length_append,
        Nat.add_sub_cancel, List.take_left]
    have hsent : s.read ++ p.content = s.sent ++ part := by
      rw [he.content, ← List.append_assoc]
      rfl
    have hpace := pace_step hs hinv.forwarder he hinv.pace
    rw [← htaken, ← hsent] at hf hpace
    exact ⟨⟨hf, hpace⟩, flushEvery_of_step hs⟩
  | send record =>
    simp only [next] at h
    split_ifs at h with hs
    split at h <;> cases h
    exact ⟨hinv.others (hdrained hs) rfl rfl id, rfl⟩
  | receive =>
    simp only [next] at h
    rcases s.channel.receive_cases with ⟨_, waiting, hw, hr⟩ | ⟨-, hr⟩ | ⟨-, hr⟩ <;>
      simp only [hr] at h <;> cases h
    refine ⟨hinv.others (fun hd => ?_) rfl rfl id, rfl⟩
    rw [hd.1] at hw
    cases hw
  | addSender =>
    simp only [next] at h
    split_ifs at h with hs
    cases h
    exact ⟨hinv.others (hdrained hs) rfl rfl id, rfl⟩
  | dropSender =>
    cases h
    refine ⟨hinv.others (fun hd => ⟨hd.1, ?_⟩) rfl rfl id, rfl⟩
    rw [Channel.dropSender, hd.2]
  | dropReceiver =>
    cases h
    exact ⟨hinv.others id rfl rfl id, rfl⟩
  | read more =>
    simp only [next] at h
    cases hr : s.pipe.read (more + 1) with
    | data bytes pipe =>
      simp only [hr] at h
      cases h
      obtain ⟨hc, hp, -, -⟩ := Pipe.read_data hr
      have hsent : s.read ++ bytes ++ pipe.content = s.sent := by
        rw [sent, hc, List.append_assoc]
      refine ⟨hinv.others id hsent ?_ ?_, rfl⟩
      · rw [hp]
      · rw [hp]
        exact id
    | empty | ended =>
      simp only [hr] at h
      cases h
  | close =>
    cases h
    exact ⟨hinv.others id rfl rfl fun _ => rfl, rfl⟩

theorem run_inv {es : List Event} (h : s.run es = some s') (hinv : s.Inv) :
    s'.Inv ∧ s'.forwarder.flushEvery = s.forwarder.flushEvery := by
  induction es generalizing s with
  | nil =>
    cases h
    exact ⟨hinv, rfl⟩
  | cons e es ih =>
    obtain ⟨t, hn, ht⟩ := Option.bind_eq_some_iff.mp h
    obtain ⟨htinv, htflush⟩ := next_inv hn hinv
    obtain ⟨hinv', hflush'⟩ := ih ht htinv
    exact ⟨hinv', hflush'.trans htflush⟩

end Scene

/-! ## What a forwarder does with the records -/

/-- **A forwarder forwards what it has taken.** Whatever others do with its channel and its pipe, a
forwarder that returns without a failure has pushed out all records that it has taken, one after
the other, and closed the pipe, and no record waits then and no sender is left. It fails only when
nobody reads its pipe. When it waits for a record, its writer holds nothing. When it looks for one,
its writer holds bytes of the last records that it has taken, and of at most `flushEvery - 1` of
them; and there is nothing else that it waits for but a record and, while its writer is at work,
room in the pipe. -/
theorem forwards_taken {channel : Channel Bytes} {flushEvery room : Nat} {events : List Event}
    {s : Scene} (h : (Scene.start channel flushEvery room).run events = some s) :
    (∀ n, s.forwarder.result? = some (.ok n) →
        n = s.taken.length ∧ s.sent = s.taken.flatten ∧ s.pipe.writable = false ∧
          s.channel.Drained) ∧
      (∀ e, s.forwarder.result? = some (.error e) →
        e = .io (.os .pipe) ∧ s.pipe.readable = false) ∧
      (s.forwarder.waits = true →
        s.sent = s.taken.flatten ∧ s.forwarder.writer.held = #[]) ∧
      (s.forwarder.tries = true →
        s.sent ++ s.forwarder.writer.held.toList = s.taken.flatten ∧
          ∃ last, last <:+ s.taken ∧ filled last ≤ flushEvery - 1 ∧
            s.forwarder.writer.held.toList <:+ last.flatten) ∧
      (s.next .forwarder = none → s.forwarder.writer.call = .idle →
        s.forwarder.result? = none → s.forwarder.waits = true ∧ s.channel.receive = .empty) := by
  obtain ⟨⟨hinv, hpace⟩, hflush⟩ := Scene.run_inv h (Scene.inv_start channel flushEvery room)
  refine ⟨fun n hr => ?_, fun e hr => ?_, hinv.of_waits hpace, fun ht => ?_, fun hn hi hr => ?_⟩
  · obtain ⟨hdrained, hsent⟩ := hinv.of_ok hr
    have hclosed : s.pipe.writable = false := by
      rw [hinv.writable, hr]
      rfl
    exact ⟨hpace.of_ok hr, hsent, hclosed, hdrained⟩
  · exact hpace.of_error hr
  · obtain ⟨hall, hle, hbehind⟩ := hinv.of_tries hpace ht
    obtain ⟨last, hlast, hfilled, hsuffix⟩ := hbehind.kept_suffix hall
    have hnew : s.forwarder.flushEvery = flushEvery := hflush
    exact ⟨hall, last, hlast, by omega, hsuffix⟩
  · exact waits_of_step_none (Option.map_eq_none_iff.mp hn) (Writer.isIdle_iff.mpr hi) hr

/-- The first of three records goes to somebody else. The second is held back while there may be
another one, and pushed out before the forwarder waits; the third is pushed out when no sender is
left. -/
theorem forwards_taken_shared :
    let channel : Channel Bytes := { capacity := 4, senders := 1, receivers := 2 }
    let looking : List Event :=
      [.send [97, lf], .send [98, lf], .receive, .forwarder, .forwarder]
    let waiting := looking ++ List.replicate 3 .forwarder
    let ended := waiting ++ [.send [99, lf], .forwarder, .forwarder, .dropSender] ++
      List.replicate 4 .forwarder
    ∃ s t u, (Scene.start channel 2 64).run looking = some s ∧ s.forwarder.tries = true ∧
      s.sent = [] ∧ s.forwarder.writer.held.toList = [98, lf] ∧
      (∃ last, last <:+ s.taken ∧ filled last ≤ 1 ∧
        s.forwarder.writer.held.toList <:+ last.flatten) ∧
      (Scene.start channel 2 64).run waiting = some t ∧ t.next .forwarder = none ∧
      t.sent = [98, lf] ∧ t.forwarder.writer.held = #[] ∧
      (Scene.start channel 2 64).run ended = some u ∧ u.forwarder.result? = some (.ok 2) ∧
      u.taken = [[98, lf], [99, lf]] ∧ u.sent = [98, lf, 99, lf] ∧ u.channel.Drained := by
  intro channel looking waiting ended
  have hs : ((Scene.start channel 2 64).run looking).map (fun s => (s.forwarder.tries, s.sent,
      s.forwarder.writer.held.toList)) = some (true, [], [98, lf]) := by
    decide +kernel
  have ht : ((Scene.start channel 2 64).run waiting).map (fun t => (t.taken,
      (t.next .forwarder).isNone, t.forwarder.writer.isIdle, t.forwarder.result?.isNone)) =
        some ([[98, lf]], true, true, true) := by
    decide +kernel
  have hu : ((Scene.start channel 2 64).run ended).map (fun u => (u.taken,
      u.forwarder.result?.bind Except.toOption)) = some ([[98, lf], [99, lf]], some 2) := by
    decide +kernel
  obtain ⟨s, hs, hse⟩ := Option.map_eq_some_iff.mp hs
  obtain ⟨t, ht, hte⟩ := Option.map_eq_some_iff.mp ht
  obtain ⟨u, hu, hue⟩ := Option.map_eq_some_iff.mp hu
  simp only [Prod.mk.injEq, Option.isNone_iff_eq_none, Writer.isIdle_iff] at hse hte hue
  obtain ⟨htries, hnothing, hheld⟩ := hse
  obtain ⟨hone, hstuck, hidle, hgoing⟩ := hte
  obtain ⟨htwo, hresult⟩ := hue
  obtain ⟨-, -, -, hlooks, -⟩ := forwards_taken hs
  obtain ⟨-, -, hwaits, -, hblocked⟩ := forwards_taken ht
  obtain ⟨hok, -⟩ := forwards_taken hu
  obtain ⟨hsent, hempty⟩ := hwaits (hblocked hstuck hidle hgoing).1
  have hreturned : u.forwarder.result? = some (.ok 2) := by
    obtain ⟨result, hr, hn⟩ := Option.bind_eq_some_iff.mp hresult
    cases result with
    | ok n =>
      cases hn
      exact hr
    | error e => cases hn
  obtain ⟨-, hall, -, hdrained⟩ := hok 2 hreturned
  refine ⟨s, t, u, hs, htries, hnothing, hheld, (hlooks htries).2, ht, hstuck, ?_, hempty, hu,
    hreturned, htwo, ?_, hdrained⟩
  · rw [hsent, hone]
    rfl
  · rw [hall, htwo]
    rfl

end Forwarder

end Coprocess
