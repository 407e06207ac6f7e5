import Coprocess.Proofs.Feeder.Publication
import Coprocess.Proofs.Pipeline.Effort

/-!
# Drained feeders

While the messages of a feeder are taken and its bytes are read, it returns after finitely many
events, and what it returns, queues and sends is told by its source alone.

* `Source.outcome`, `Source.messages`: what a feeder returns and queues that nobody disturbs;
* `Feeder.Event.Drains`: the events that disturb nobody;
* `Feeder.Scene.Attended`: both other ends are there, and there is room for something;
* `Feeder.Scene.left`, `Feeder.Scene.run_left`: how many events are left;
* **`Feeder.flow_control_invisible`**: what has come of a feeder when no event is left.
-/

namespace Coprocess

/-- The result of a feeder that nobody disturbs. -/
def Source.outcome (s : Source) : Except Failure Nat :=
  match s.fault? with
  | none => .ok s.parcels.length
  | some e => .error e

/-- The messages of a feeder that nobody disturbs. -/
def Source.messages (s : Source) : List (Message Descriptor) :=
  match s.fault? with
  | none => items s.parcels ++ [.finished]
  | some _ => items s.parcels

namespace Feeder

/-- A feeder that fails although both other ends are there has found a malformed line. -/
theorem Inv.of_error {s₀ : Source} {published : List Parcel} {log : List (Message Descriptor)}
    {sent : Bytes} {q : Queue Descriptor} {p : Pipe} {f : Feeder} {e : Failure}
    (h : f.Inv s₀ published log sent q p) (hr : f.result? = some (.error e))
    (hp : p.readable = true) (hq : q.consuming = true) :
    s₀.fault? = some e ∧ log = items s₀.parcels ∧ sent = payloads s₀.parcels := by
  obtain ⟨hcause, hlog⟩ := h.failing (.inr (phase_of_result? hr))
  have hsent := h.sent_all (by rw [hr]; rfl) hp
  rcases hcause with ⟨rfl, hfault⟩ | ⟨-, hclosed⟩ | ⟨-, hclosed⟩
  · exact ⟨hfault, hlog, hsent⟩
  · rw [hp] at hclosed
    cases hclosed
  · rw [hq] at hclosed
    cases hclosed

/-- The feeder takes a step, a message is taken, or bytes are read. -/
def Event.Drains : Event → Prop
  | .feeder | .receive | .read _ => True
  | .desert | .close => False

instance : DecidablePred Event.Drains
  | .feeder | .receive | .read _ => .isTrue trivial
  | .desert | .close => .isFalse id

namespace Scene

variable {s₀ : Source} {published : List Parcel} {s s' : Scene} {e : Event}

/-- The other ends are there, and a message and a byte can be under way. -/
structure Attended (s : Scene) : Prop where
  readable : s.pipe.readable = true
  consuming : s.queue.consuming = true
  room : 0 < s.pipe.capacity
  places : ∀ n, s.queue.capacity = some n → 0 < n

theorem attended_start (source : Source) (flushEvery : Nat) (capacity : Option Nat) {room : Nat}
    (h : 0 < room) : (start source flushEvery capacity room).Attended := by
  refine ⟨rfl, rfl, h, fun n hn => ?_⟩
  obtain ⟨m, -, rfl⟩ := Option.map_eq_some_iff.mp hn
  omega

theorem next_attended (h : s.next e = some s') (he : e.Drains) (hinv : s.Inv s₀ published)
    (ha : s.Attended) : s'.Attended := by
  obtain ⟨hreadable, hconsuming, hroom, hplaces⟩ := ha
  cases e with
  | feeder =>
    obtain ⟨⟨f, q, p⟩, hs, rfl⟩ := Option.map_eq_some_iff.mp h
    obtain ⟨_, _, _, heff, -⟩ := Feeder.step_inv hs hinv.feeder
    refine ⟨heff.readable.trans hreadable, heff.consuming.trans hconsuming, ?_, ?_⟩
    · rw [heff.capacity]
      exact hroom
    · rw [heff.limit]
      exact hplaces
  | receive =>
    unfold next at h
    rcases Queue.receive_cases s.queue with ⟨m, waiting, -, hr⟩ | ⟨-, -, hr⟩ | ⟨-, -, hr⟩ <;>
      simp only [hr] at h <;> cases h
    exact ⟨hreadable, hconsuming, hroom, hplaces⟩
  | read more =>
    unfold next at h
    cases hr : s.pipe.read (more + 1) with
    | data bytes pipe =>
      simp only [hr] at h
      cases h
      obtain ⟨-, hp, -, -⟩ := Pipe.read_data hr
      refine ⟨?_, hconsuming, ?_, hplaces⟩
      · rw [hp]
        exact hreadable
      · rw [hp]
        exact hroom
    | empty | ended =>
      simp only [hr] at h
      cases h
  | desert | close => exact he.elim

/-! ## How many events are left -/

/-- The steps that are left to the feeder, the bytes that are left to be read, and the messages that
are left to be taken. -/
def left (s₀ : Source) (s : Scene) : Nat :=
  s.feeder.effort + ((payloads s₀.parcels).length - s.read.length) +
    (s₀.parcels.length + 1 - s.gone.length)

theorem Inv.sent_le (h : s.Inv s₀ published) : s.sent.length ≤ (payloads s₀.parcels).length := by
  obtain ⟨⟨rest, hp⟩, hsent, -⟩ := h.feeder.announced
  have hle := hsent.length_le
  rw [← hp, payloads_append, List.length_append]
  omega

theorem Inv.queued_le (h : s.Inv s₀ published) : s.queued.length ≤ s₀.parcels.length + 1 := by
  obtain ⟨hp, -, hq⟩ := h.feeder.announced
  have hle := hp.length_le
  rcases hq with hq | ⟨hq, -⟩ <;> rw [hq] <;> simp <;> omega

/-- **Each of these events is one of those that are left.** -/
theorem next_left (h : s.next e = some s') (he : e.Drains) (hinv : s.Inv s₀ published) :
    s'.left s₀ < s.left s₀ := by
  cases e with
  | feeder =>
    obtain ⟨⟨f, q, p⟩, hs, rfl⟩ := Option.map_eq_some_iff.mp h
    have hlt := step_effort hs hinv.feeder
    simp only [left]
    omega
  | receive =>
    have hle := hinv.queued_le
    unfold next at h
    rcases Queue.receive_cases s.queue with ⟨m, waiting, hw, hr⟩ | ⟨-, -, hr⟩ | ⟨-, -, hr⟩ <;>
      simp only [hr] at h <;> cases h
    simp only [queued, hw, List.length_append, List.length_cons] at hle
    simp only [left, List.length_append, List.length_singleton]
    omega
  | read more =>
    have hle := hinv.sent_le
    unfold next at h
    cases hr : s.pipe.read (more + 1) with
    | data bytes pipe =>
      simp only [hr] at h
      cases h
      obtain ⟨hc, -, hne, hb⟩ := Pipe.read_data hr
      have hpos : 0 < bytes.length := by
        rw [hb, List.length_take]
        have := List.length_pos_iff.mpr hne
        omega
      simp only [sent, hc, List.length_append] at hle
      simp only [left, List.length_append]
      omega
    | empty | ended =>
      simp only [hr] at h
      cases h
  | desert | close => exact he.elim

theorem run_left {es : List Event} (h : s.run es = some s') (hes : ∀ e ∈ es, e.Drains)
    (hinv : s.Inv s₀ published) (ha : s.Attended) :
    s'.Attended ∧ es.length + s'.left s₀ ≤ s.left s₀ := by
  induction es generalizing s published with
  | nil =>
    cases h
    exact ⟨ha, by simp⟩
  | cons e es ih =>
    obtain ⟨t, hn, ht⟩ := run_cons h
    have he := hes e List.mem_cons_self
    obtain ⟨_, htinv⟩ := next_inv hn hinv
    have hlt := next_left hn he hinv
    obtain ⟨ha', hle⟩ := ih ht (fun e he => hes e (List.mem_cons_of_mem _ he)) htinv
      (next_attended hn he hinv ha)
    refine ⟨ha', ?_⟩
    rw [List.length_cons]
    omega

/-! ## When no event is left -/

/-- The feeder cannot go on, and there is nothing to be taken or read. -/
def Exhausted (s : Scene) : Prop := ∀ e : Event, e.Drains → s.next e = none

theorem Exhausted.waiting (h : s.Exhausted) : s.queue.waiting.toList = [] := by
  have h := h .receive trivial
  unfold next at h
  rcases Queue.receive_cases s.queue with ⟨m, waiting, -, hr⟩ | ⟨hw, -⟩ | ⟨hw, -⟩
  · simp only [hr] at h
    cases h
  · exact hw
  · exact hw

theorem content_of_next_read (h : s.next (.read 0) = none) : s.pipe.content = [] := by
  unfold next at h
  cases hr : s.pipe.read (0 + 1) with
  | data bytes pipe =>
    simp only [hr] at h
    cases h
  | empty => exact (Pipe.read_empty hr).1
  | ended => exact (Pipe.read_ended hr).1

theorem Exhausted.content (h : s.Exhausted) : s.pipe.content = [] :=
  content_of_next_read (h (.read 0) trivial)

theorem exhausted_iff : s.Exhausted ↔
    (s.next .feeder).isNone ∧ (s.next .receive).isNone ∧ (s.next (.read 0)).isNone := by
  simp only [Option.isNone_iff_eq_none]
  constructor
  · intro h
    exact ⟨h .feeder trivial, h .receive trivial, h (.read 0) trivial⟩
  · rintro ⟨hfeeder, hreceive, hread⟩ e he
    cases e with
    | feeder => exact hfeeder
    | receive => exact hreceive
    | read more =>
      have hempty := Pipe.content_eq_nil_iff.mp (content_of_next_read hread)
      unfold next Pipe.read
      by_cases hw : s.pipe.writable = true <;> simp [hempty, hw]
    | desert | close => exact he.elim

instance (s : Scene) : Decidable s.Exhausted := decidable_of_iff' _ exhausted_iff

/-- A feeder that can go on neither by itself nor after others has returned. -/
theorem Exhausted.returned (h : s.Exhausted) (hinv : s.Inv s₀ published) (ha : s.Attended) :
    s.feeder.result?.isSome = true := by
  have hstep : s.feeder.step s.queue s.pipe = none := Option.map_eq_none_iff.mp (h .feeder trivial)
  rcases hinv.feeder.step_none hstep with hr | ⟨-, hroom⟩ | ⟨hfull, -⟩
  · exact hr
  · have hsize : s.pipe.bytes.size = 0 := by
      rw [← Array.length_toList]
      exact congrArg List.length h.content
    have := ha.room
    unfold Pipe.room at hroom
    omega
  · obtain ⟨n, hn, hle⟩ := Queue.isFull_iff.mp hfull
    have hpos := ha.places n hn
    rw [h.waiting, List.length_nil] at hle
    omega

end Scene

/-- **Flow control is invisible.** Whatever the flushes, the capacity of the queue and that of the
pipe are, a feeder whose messages are taken and whose bytes are read goes on for so many events at
most as its source allows. When no event is left it has returned, with the number of units or with
the failure of the source. The messages that were taken are the descriptors of all parcels in order,
and one end marker if the source did not fail; the bytes that were read are the lines of all
parcels, and nothing follows them. -/
theorem flow_control_invisible (source : Source) :
    ∃ bound, ∀ (flushEvery : Nat) (capacity : Option Nat) (room : Nat), 0 < room →
      ∀ (events : List Event) (s : Scene), (∀ e ∈ events, e.Drains) →
        (Scene.start source flushEvery capacity room).run events = some s →
          events.length ≤ bound ∧
            (s.Exhausted →
              s.feeder.result? = some source.outcome ∧
                s.gone = source.messages ∧ s.queue.waiting.toList = [] ∧
                s.read = payloads source.parcels ∧ s.pipe.content = [] ∧
                s.pipe.writable = false) := by
  refine ⟨(Scene.start source 1 none 1).left source, ?_⟩
  intro flushEvery capacity room hroom events s hes h
  have hstart := Scene.inv_start source flushEvery capacity room
  obtain ⟨published, hinv⟩ := Scene.run_inv h hstart
  obtain ⟨ha, hle⟩ := Scene.run_left h hes hstart (Scene.attended_start source _ _ hroom)
  refine ⟨(Nat.le_add_right _ _).trans hle, fun hstop => ?_⟩
  have hw := hstop.waiting
  have hc := hstop.content
  have hqueued : s.queued = s.gone := by rw [Scene.queued, hw, List.append_nil]
  have hsent : s.sent = s.read := by rw [Scene.sent, hc, List.append_nil]
  have hr := hstop.returned hinv ha
  have hclosed : s.pipe.writable = false := by
    rw [hinv.present.writable]
    simpa using hr
  have hfeeder := hinv.feeder
  rw [hqueued, hsent] at hfeeder
  obtain ⟨result, hresult⟩ := Option.isSome_iff_exists.mp hr
  cases result with
  | ok n =>
    obtain ⟨rfl, -, hfault, hread, hgone⟩ := hfeeder.of_ok hresult
    exact ⟨by rw [hresult, Source.outcome, hfault], by rw [hgone, Source.messages, hfault], hw,
      hread, hc, hclosed⟩
  | error e =>
    obtain ⟨hfault, hgone, hread⟩ := hfeeder.of_error hresult ha.readable ha.consuming
    exact ⟨by rw [hresult, Source.outcome, hfault], by rw [hgone, Source.messages, hfault], hw,
      hread, hc, hclosed⟩

/-- A malformed third line, once with a flush after each unit and room for one descriptor and one
byte, and once with flushes after two units and room for everything. -/
theorem flow_control_invisible_malformed :
    let source : Source := { kind := .document, input := Bytes.ofString "YQ==\nYg==\n@\n" }
    let narrow : List Event := List.replicate 5 .feeder ++ [.receive, .read 0] ++
      List.replicate 6 .feeder ++ [.receive, .read 0, .feeder, .read 0] ++
      List.replicate 5 .feeder ++ [.read 0]
    let wide : List Event := List.replicate 13 .feeder ++ [.receive, .receive, .read 63]
    ∃ s t, (Scene.start source 0 (some 0) 1).run narrow = some s ∧ s.Exhausted ∧
      (Scene.start source 2 none 64).run wide = some t ∧ t.Exhausted ∧ s.read = [97, lf, 98, lf] ∧
      s.feeder.result? = t.feeder.result? ∧ s.gone = t.gone ∧ s.read = t.read := by
  intro source narrow wide
  have hs : ((Scene.start source 0 (some 0) 1).run narrow).any
      (fun s => decide (s.Exhausted ∧ s.read = [97, lf, 98, lf])) = true := by
    decide +kernel
  have ht : ((Scene.start source 2 none 64).run wide).any (fun s => decide s.Exhausted) = true := by
    decide +kernel
  obtain ⟨s, hs, hse⟩ := (Option.any_eq_true _ _).mp hs
  obtain ⟨t, ht, hte⟩ := (Option.any_eq_true _ _).mp ht
  obtain ⟨hse, hread⟩ := of_decide_eq_true hse
  have hte := of_decide_eq_true hte
  obtain ⟨_, h⟩ := flow_control_invisible source
  obtain ⟨hr, hg, -, hb, -⟩ := (h 0 (some 0) 1 (by decide) narrow s (by decide) hs).2 hse
  obtain ⟨hr', hg', -, hb', -⟩ := (h 2 none 64 (by decide) wide t (by decide) ht).2 hte
  exact ⟨s, t, hs, hse, ht, hte, hread, hr.trans hr'.symm, hg.trans hg'.symm, hb.trans hb'.symm⟩

end Feeder

end Coprocess
