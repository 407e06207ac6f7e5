import Coprocess.Queue.Call
import Mathlib.Tactic.ByContra

/-!
# A unit queue is first in, first out, with one end

Any calls at the two ends of a queue, in any order, with the answers to them.

* `Queue.Step`: what one call can do;
* `Queue.History`, `Queue.Calls`: calls one after the other;
* `Queue.accepted`, `Queue.consumed`, `Queue.consumptions`: what a history tells;
* `Queue.Lawful`: the rules of a queue with an end marker;
* **`Queue.first_in_first_out`**: they hold after any calls on a new queue.
-/

namespace Coprocess

namespace Queue

variable {α : Type} {q q' : Queue α} {c : Call α} {r : Answer α}

/-! ## One call -/

/-- The message that a call sends. -/
def Call.message? : Call α → Option (Message α)
  | .produce a | .tryProduce a => some (.item a)
  | .finish => some .finished
  | .size | .consume | .isEmpty _ | .drop _ => none

/-- What a call can do. -/
inductive Step : Queue α → Call α → Answer α → Queue α → Prop
  | add {q : Queue α} {c : Call α} {a : α} (hc : c.message? = some (.item a))
      (hp : q.producing = true) (hq : q.consuming = true) (hf : q.isFull = false) :
      Step q c .done { q with waiting := q.waiting.push (.item a) }
  | finish {q : Queue α} (hp : q.producing = true) (hq : q.consuming = true)
      (hf : q.isFull = false) :
      Step q .finish .done { q with waiting := q.waiting.push .finished, producing := false }
  | back {q : Queue α} {a : α} (hp : q.producing = true) (hq : q.consuming = true)
      (hf : q.isFull = true) : Step q (.tryProduce a) (.back a) q
  | refuse {q : Queue α} {c : Call α} {a : α} (hc : c.message? = some (.item a))
      (hp : q.producing = true) (hq : q.consuming = false) : Step q c .closed q
  | refuseEnd {q : Queue α} (hp : q.producing = true) (hq : q.consuming = false) :
      Step q .finish .closed q.dropProducer
  | take {q : Queue α} {m : Message α} {waiting : Fifo (Message α)} (hq : q.consuming = true)
      (hw : q.waiting.toList = m :: waiting.toList) : Step q .consume (.of m) { q with waiting }
  | runOut {q : Queue α} (hq : q.consuming = true) (hp : q.producing = false)
      (hw : q.waiting.toList = []) : Step q .consume .closed q
  | size {q : Queue α} (hp : q.producing = true) : Step q .size (.size q.waiting.size) q
  | isEmpty {q : Queue α} (side : Side) (hs : q.has side = true) :
      Step q (.isEmpty side) (.empty q.waiting.isEmpty) q
  | dropProducer {q : Queue α} (hp : q.producing = true) :
      Step q (.drop .producer) .done q.dropProducer
  | dropConsumer {q : Queue α} (hq : q.consuming = true) :
      Step q (.drop .consumer) .done q.dropConsumer

theorem has_of_call? (h : q.call? c = some (r, q')) : q.has c.side = true := by
  by_contra hs
  rw [call?, if_neg hs] at h
  cases h

theorem step_of_call? (h : q.call? c = some (r, q')) : Step q c r q' := by
  have hs := has_of_call? h
  rw [call?, if_pos hs] at h
  cases c with
  | produce a =>
    rcases send_cases q (.item a) with ⟨hq, he⟩ | ⟨hq, hf, he⟩ | ⟨hq, hf, he⟩ <;>
      simp only [perform?, he] at h <;> cases h
    · exact .refuse rfl hs hq
    · exact .add rfl hs hq hf
  | tryProduce a =>
    rcases send_cases q (.item a) with ⟨hq, he⟩ | ⟨hq, hf, he⟩ | ⟨hq, hf, he⟩ <;>
      simp only [perform?, he] at h <;> cases h
    · exact .refuse rfl hs hq
    · exact .back hs hq hf
    · exact .add rfl hs hq hf
  | finish =>
    rcases send_cases q .finished with ⟨hq, he⟩ | ⟨hq, hf, he⟩ | ⟨hq, hf, he⟩ <;>
      simp only [perform?, he] at h <;> cases h
    · exact .refuseEnd hs hq
    · exact .finish hs hq hf
  | size =>
    cases h
    exact .size hs
  | consume =>
    rcases receive_cases q with ⟨m, waiting, hw, he⟩ | ⟨hw, hp, he⟩ | ⟨hw, hp, he⟩ <;>
      simp only [perform?, he] at h <;> cases h
    · exact .take hs hw
    · exact .runOut hs hp hw
  | isEmpty side =>
    cases h
    exact .isEmpty side hs
  | drop side =>
    cases side with
    | producer =>
      cases h
      exact .dropProducer hs
    | consumer =>
      cases h
      exact .dropConsumer hs

/-- A call waits: a sender for room, a receiver for a message. -/
def Waits (q : Queue α) : Call α → Prop
  | .produce _ | .finish => q.consuming = true ∧ q.isFull = true
  | .consume => q.producing = true ∧ q.waiting.toList = []
  | .tryProduce _ | .size | .isEmpty _ | .drop _ => False

theorem call?_eq_none_iff (hs : q.has c.side = true) : q.call? c = none ↔ q.Waits c := by
  rw [call?, if_pos hs]
  cases c with
  | produce a =>
    rcases send_cases q (.item a) with ⟨hq, he⟩ | ⟨hq, hf, he⟩ | ⟨hq, hf, he⟩ <;>
      simp [perform?, Waits, *]
  | tryProduce a =>
    rcases send_cases q (.item a) with ⟨hq, he⟩ | ⟨hq, hf, he⟩ | ⟨hq, hf, he⟩ <;>
      simp [perform?, Waits, *]
  | finish =>
    rcases send_cases q .finished with ⟨hq, he⟩ | ⟨hq, hf, he⟩ | ⟨hq, hf, he⟩ <;>
      simp [perform?, Waits, *]
  | consume =>
    rcases receive_cases q with ⟨m, waiting, hw, he⟩ | ⟨hw, hp, he⟩ | ⟨hw, hp, he⟩ <;>
      simp [perform?, Waits, *]
  | size | isEmpty side => simp [perform?, Waits]
  | drop side => cases side <;> simp [perform?, Waits]

/-! ## Histories -/

/-- Calls and the answers to them, the first one first. -/
abbrev History (α : Type) := List (Call α × Answer α)

/-- The calls of a history lead from one queue to another. -/
inductive Calls : Queue α → History α → Queue α → Prop
  | nil (q : Queue α) : Calls q [] q
  | cons {q q₁ q₂ : Queue α} {c : Call α} {r : Answer α} {l : History α}
      (h : q.call? c = some (r, q₁)) (hl : Calls q₁ l q₂) : Calls q ((c, r) :: l) q₂

/-- The message that a call has put into the queue. -/
def sent? : Call α × Answer α → Option (Message α)
  | (c, .done) => c.message?
  | _ => none

/-- The message that a call has taken from the queue. -/
def received? : Call α × Answer α → Option (Message α)
  | (_, .item a) => some (.item a)
  | (_, .ended) => some .finished
  | _ => none

/-- What the consumer was answered. -/
def consumption? : Call α × Answer α → Option (Answer α)
  | (.consume, r) => some r
  | _ => none

/-- The messages that were put into the queue. -/
def sent (l : History α) : List (Message α) := l.filterMap sent?

/-- The messages that were taken from the queue. -/
def received (l : History α) : List (Message α) := l.filterMap received?

/-- The items that were put into the queue. -/
def accepted (l : History α) : List α := (sent l).filterMap Message.item?

/-- The items that were taken from the queue. -/
def consumed (l : History α) : List α := (received l).filterMap Message.item?

/-- The answers to the consumer. -/
def consumptions (l : History α) : List (Answer α) := l.filterMap consumption?

/-- The items that wait. -/
def units (q : Queue α) : List α := q.waiting.toList.filterMap Message.item?

/-- The accepted items that are not consumed yet. -/
def left (l : History α) : List α := (accepted l).drop (consumed l).length

variable {l l₁ l₂ : History α} {n : Option Nat} {m : Message α}

theorem sent_append (l₁ l₂ : History α) : sent (l₁ ++ l₂) = sent l₁ ++ sent l₂ :=
  List.filterMap_append

theorem sent_concat (l : History α) (e : Call α × Answer α) :
    sent (l ++ [e]) = sent l ++ (sent? e).toList := by
  rw [sent_append]
  cases h : sent? e <;> simp [sent, h]

theorem received_concat (l : History α) (e : Call α × Answer α) :
    received (l ++ [e]) = received l ++ (received? e).toList := by
  unfold received
  rw [List.filterMap_append]
  cases h : received? e <;> simp [h]

theorem sent?_eq_finished_iff : sent? (c, r) = some .finished ↔ (c, r) = (.finish, .done) := by
  constructor
  · intro h
    cases r <;> cases c <;> cases h
    rfl
  · rintro ⟨⟩
    rfl

theorem finished_mem_sent_iff : .finished ∈ sent l ↔ (.finish, .done) ∈ l := by
  rw [sent, List.mem_filterMap]
  constructor
  · rintro ⟨e, he, h⟩
    rw [← sent?_eq_finished_iff.mp h]
    exact he
  · exact fun h => ⟨_, h, rfl⟩

theorem consumptions_cons (hc : c ≠ .consume) : consumptions ((c, r) :: l) = consumptions l := by
  cases c <;> first | rfl | exact absurd rfl hc

theorem Calls.split (h : Calls q (l₁ ++ (c, r) :: l₂) q') :
    ∃ q₁ q₂, Calls q l₁ q₁ ∧ q₁.call? c = some (r, q₂) ∧ Calls q₂ l₂ q' := by
  induction l₁ generalizing q with
  | nil =>
    obtain - | ⟨h, hl⟩ := h
    exact ⟨q, _, .nil q, h, hl⟩
  | cons e l₁ ih =>
    obtain - | ⟨h, hl⟩ := h
    obtain ⟨q₁, q₂, h₁, hc, h₂⟩ := ih hl
    exact ⟨q₁, q₂, .cons h h₁, hc, h₂⟩

/-! ## What one call preserves -/

/-- **No message is lost or made** while the consumer is there. -/
theorem Step.conserves (h : Step q c r q') (hq : q'.consuming = true) :
    q.waiting.toList ++ (sent? (c, r)).toList =
      (received? (c, r)).toList ++ q'.waiting.toList := by
  cases h with
  | @add _ a hc =>
    have hsent : sent? (c, Answer.done) = some (.item a) := hc
    rw [hsent, Fifo.toList_push]
    rfl
  | finish => rw [Fifo.toList_push]; rfl
  | @take m waiting _ hw =>
    rw [hw]
    cases m <;> exact List.append_nil _
  | dropConsumer => cases hq
  | back | refuse | refuseEnd | runOut | size | isEmpty | dropProducer => exact List.append_nil _

theorem Step.capacity (h : Step q c r q') : q'.capacity = q.capacity := by
  cases h <;> rfl

theorem Step.consuming (h : Step q c r q') (hq : q'.consuming = true) : q.consuming = true := by
  cases h <;> first | exact hq | assumption

theorem Step.producing (h : Step q c r q') (hp : q'.producing = true) : q.producing = true := by
  cases h <;> first | exact hp | assumption

theorem Step.sends (h : Step q c r q') (hm : sent? (c, r) = some m) :
    q.producing = true ∧ (m = .finished → q'.producing = false) := by
  cases h with
  | @add _ a hc hp =>
    refine ⟨hp, fun he => ?_⟩
    rw [he, show sent? (c, Answer.done) = some (.item a) from hc] at hm
    cases hm
  | finish hp => exact ⟨hp, fun _ => rfl⟩
  | @take m' => cases m' <;> cases hm
  | back | refuse | refuseEnd | runOut | size | isEmpty | dropProducer | dropConsumer => cases hm

theorem isFull_iff_of_capacity {k : Nat} (hk : q.capacity = some k) :
    q.isFull = true ↔ k ≤ q.waiting.size := by
  rw [isFull, hk]
  exact decide_eq_true_iff

theorem Step.room (h : Step q c r q') (hroom : ∀ k, q.capacity = some k → q.waiting.size ≤ k) :
    ∀ k, q'.capacity = some k → q'.waiting.size ≤ k := by
  have hpush (hf : q.isFull = false) (m : Message α) (k : Nat) (hk : q.capacity = some k) :
      (q.waiting.push m).size ≤ k := by
    have hlt : ¬ k ≤ q.waiting.size := fun hle => by
      rw [(isFull_iff_of_capacity hk).mpr hle] at hf
      cases hf
    rw [← Fifo.length_toList, Fifo.toList_push, List.length_append, Fifo.length_toList,
      List.length_singleton]
    omega
  cases h with
  | add _ _ _ hf | finish _ _ hf => exact hpush hf _
  | @take m waiting _ hw =>
    intro k hk
    have hle := hroom k hk
    have hlen := congrArg List.length hw
    rw [Fifo.length_toList, List.length_cons, Fifo.length_toList] at hlen
    show waiting.size ≤ k
    omega
  | dropConsumer =>
    intro k hk
    have hk : q.capacity = some k := hk
    show (if q.capacity.isNone = true then {} else q.waiting).size ≤ k
    rw [hk]
    exact hroom k hk
  | back | refuse | refuseEnd | runOut | size | isEmpty | dropProducer => exact hroom

/-! ## The invariant -/

/-- What holds of a queue with the capacity `n` after the calls of `l`. -/
structure Inv (n : Option Nat) (l : History α) (q : Queue α) : Prop where
  capacity : q.capacity = n.map (max 1)
  room : ∀ k, q.capacity = some k → q.waiting.size ≤ k
  order : q.consuming = true → received l ++ q.waiting.toList = sent l
  /-- The end marker is the last message. -/
  marker : sent l = (accepted l).map .item ∨
    sent l = (accepted l).map .item ++ [.finished] ∧ q.producing = false
  deserted : (.drop .consumer, .done) ∈ l → q.consuming = false

theorem inv_new (n : Option Nat) : Inv n [] (Queue.new n : Queue α) where
  capacity := rfl
  room := fun _ _ => Nat.zero_le _
  order := fun _ => rfl
  marker := .inl rfl
  deserted := fun h => absurd h List.not_mem_nil

theorem Inv.going (h : Inv n l q) (hp : q.producing = true) : sent l = (accepted l).map .item := by
  rcases h.marker with hm | ⟨-, hf⟩
  · exact hm
  · rw [hp] at hf
    cases hf

theorem Inv.marker_step (h : Inv n l q) (hs : Step q c r q') :
    sent (l ++ [(c, r)]) = (accepted (l ++ [(c, r)])).map .item ∨
      sent (l ++ [(c, r)]) = (accepted (l ++ [(c, r)])).map .item ++ [.finished] ∧
        q'.producing = false := by
  rw [accepted, sent_concat, List.filterMap_append, ← accepted]
  cases hm : sent? (c, r) with
  | none =>
    simp only [Option.toList_none, List.filterMap_nil, List.append_nil]
    refine h.marker.imp id fun ⟨ha, hp⟩ => ⟨ha, ?_⟩
    exact Bool.eq_false_iff.mpr fun hp' => by simp [hs.producing hp'] at hp
  | some m =>
    obtain ⟨hp, hfin⟩ := hs.sends hm
    rw [h.going hp]
    cases m with
    | item a => exact .inl (by simp [Message.item?])
    | finished => exact .inr ⟨by simp [Message.item?], hfin rfl⟩

theorem Inv.step (h : Inv n l q) (hs : Step q c r q') : Inv n (l ++ [(c, r)]) q' where
  capacity := hs.capacity.trans h.capacity
  room := hs.room h.room
  order := fun hq => by
    rw [sent_concat, received_concat, ← h.order (hs.consuming hq), List.append_assoc,
      List.append_assoc, hs.conserves hq]
  marker := h.marker_step hs
  deserted := fun hm => by
    rcases List.mem_append.mp hm with hm | hm
    · refine Bool.eq_false_iff.mpr fun hq => ?_
      have hgone := h.deserted hm
      rw [hs.consuming hq] at hgone
      cases hgone
    · cases List.mem_singleton.mp hm
      cases hs with
      | add hc => cases hc
      | dropConsumer => rfl

theorem Inv.run (h : Inv n l q) (hc : Calls q l₂ q') : Inv n (l ++ l₂) q' := by
  induction hc generalizing l with
  | nil q =>
    rw [List.append_nil]
    exact h
  | cons hc _ ih =>
    rw [← List.singleton_append, ← List.append_assoc]
    exact ih (h.step (step_of_call? hc))

theorem Calls.inv (h : Calls (Queue.new n) l q) : Inv n l q := (inv_new n).run h

/-! ## Ends that are gone -/

theorem side_of_dropped (h : Calls q l q') (hp : q.producing = false) :
    ∀ e ∈ l, e.1.side = .consumer := by
  induction h with
  | nil => exact fun e he => absurd he List.not_mem_nil
  | @cons q q₁ q₂ c r l hc _ ih =>
    have hside : c.side = .consumer := by
      have hs := has_of_call? hc
      cases hside : c.side with
      | consumer => rfl
      | producer =>
        rw [hside, has, hp] at hs
        cases hs
    have hp₁ : q₁.producing = false := Bool.eq_false_iff.mpr fun hp' => by
      rw [(step_of_call? hc).producing hp'] at hp
      cases hp
    intro e he
    rcases List.mem_cons.mp he with rfl | he
    · exact hside
    · exact ih hp₁ e he

theorem sent_of_dropped (h : Calls q l q') (hp : q.producing = false) : sent l = [] := by
  refine List.filterMap_eq_nil_iff.mpr fun e he => ?_
  have hside := side_of_dropped h hp e he
  obtain ⟨c, r⟩ := e
  cases r <;> cases c <;> first | rfl | cases hside

theorem Step.deserted (h : Step q c r q') (hq : q.consuming = false) :
    q'.consuming = false ∧ c ≠ .consume ∧ (c.message?.isSome = true → r = .closed) := by
  cases h with
  | add _ _ hc | finish _ hc | back _ hc | take hc | runOut hc | dropConsumer hc =>
    rw [hq] at hc
    cases hc
  | refuse hm =>
    refine ⟨hq, fun he => ?_, fun _ => rfl⟩
    rw [he] at hm
    cases hm
  | refuseEnd => exact ⟨hq, by simp, fun _ => rfl⟩
  | size | isEmpty | dropProducer => exact ⟨hq, by simp, fun hm => by cases hm⟩

theorem refused_of_deserted (h : Calls q l q') (hq : q.consuming = false) :
    consumptions l = [] ∧ ∀ e ∈ l, e.1.message?.isSome = true → e.2 = .closed := by
  induction h with
  | nil => exact ⟨rfl, fun e he => absurd he List.not_mem_nil⟩
  | cons hc _ ih =>
    obtain ⟨hq₁, hne, hr⟩ := (step_of_call? hc).deserted hq
    obtain ⟨hnone, hall⟩ := ih hq₁
    refine ⟨(consumptions_cons hne).trans hnone, fun e he => ?_⟩
    rcases List.mem_cons.mp he with rfl | he
    · exact hr
    · exact hall e he

/-- Once the producer is gone, the consumer gets what waits, and then learns that nobody is
there. -/
theorem consumptions_of_dropped (h : Calls q l q') (hp : q.producing = false) :
    ∃ k, consumptions l <+: q.waiting.toList.map .of ++ List.replicate k .closed := by
  induction h with
  | nil => exact ⟨0, List.nil_prefix⟩
  | cons hc hl ih =>
    cases step_of_call? hc with
    | take hq hw =>
      obtain ⟨k, hk⟩ := ih hp
      refine ⟨k, ?_⟩
      rw [hw]
      exact (List.prefix_cons_inj _).mpr hk
    | runOut hq _ hw =>
      obtain ⟨k, hk⟩ := ih hp
      refine ⟨k + 1, ?_⟩
      rw [hw] at hk ⊢
      exact (List.prefix_cons_inj _).mpr hk
    | isEmpty side => exact ih hp
    | dropConsumer =>
      refine ⟨0, ?_⟩
      rw [consumptions_cons (by simp), (refused_of_deserted hl rfl).1]
      exact List.nil_prefix
    | add _ hp' | finish hp' | back hp' | refuse _ hp' | refuseEnd hp' | size hp'
    | dropProducer hp' =>
      rw [hp] at hp'
      cases hp'

/-! ## The rules -/

/-- The rules of a queue with the capacity `n`: what is true of the calls of `l`, and of the queue
after them. -/
structure Lawful (n : Option Nat) (l : History α) (q : Queue α) : Prop where
  /-- What was consumed and what waits is what was accepted. -/
  in_order : q.consuming = true → consumed l ++ q.units = accepted l
  bounded : ∀ k, n = some k → q.waiting.size ≤ max k 1
  isFull_iff : q.isFull = true ↔ ∃ k, n = some k ∧ q.waiting.size = max k 1
  /-- A call waits for room or for a message, and for nothing else. -/
  waits : ∀ c, q.has c.side = true → (q.call? c = none ↔ q.Waits c)
  isEmpty : ∀ side b q', q.call? (.isEmpty side) = some (.empty b, q') →
    q' = q ∧ (b = true ↔ q.waiting.toList = [])
  /-- Nothing is accepted after the end marker. -/
  marker : ∀ l₁ l₂, l = l₁ ++ (.finish, .done) :: l₂ → accepted l₂ = [] ∧ (.finish, .done) ∉ l₂
  /-- The end is told once, when the producer has finished and every item is consumed. -/
  ended : ∀ l₁ l₂, l = l₁ ++ (.consume, .ended) :: l₂ →
    (.finish, .done) ∈ l₁ ∧ consumed l₁ = accepted l ∧ ∀ r ∈ consumptions l₂, r = .closed
  /-- Who has finished is followed by what is left, the end, and nothing. -/
  finished : ∀ l₁ l₂, l = l₁ ++ (.finish, .done) :: l₂ →
    ∃ k, consumptions l₂ <+: (left l₁).map .item ++ .ended :: List.replicate k .closed
  /-- Who goes away is followed by what is left, and nothing. -/
  dropped : ∀ l₁ l₂, l = l₁ ++ (.drop .producer, .done) :: l₂ →
    ∃ k, consumptions l₂ <+: (left l₁).map .item ++ List.replicate k .closed
  /-- A full queue gives the item back and stays as it is. -/
  back : ∀ a, q.producing = true → q.consuming = true → q.isFull = true →
    q.call? (.tryProduce a) = some (.back a, q)
  back_full : ∀ a b q', q.call? (.tryProduce a) = some (.back b, q') →
    b = a ∧ q' = q ∧ q.isFull = true
  /-- Nothing is accepted once the consumer is gone. -/
  deserted : ∀ l₁ l₂, l = l₁ ++ (.drop .consumer, .done) :: l₂ →
    ∀ e ∈ l₂, e.1.message?.isSome = true → e.2 = .closed
  refused : (.drop .consumer, .done) ∈ l → q.producing = true →
    ∀ c, c.message?.isSome = true → ∃ q', q.call? c = some (.closed, q')

theorem Inv.in_order (h : Inv n l q) (hq : q.consuming = true) :
    consumed l ++ q.units = accepted l := by
  rw [consumed, units, ← List.filterMap_append, h.order hq]
  rfl

theorem Inv.bounded (h : Inv n l q) (k : Nat) (hk : n = some k) : q.waiting.size ≤ max k 1 := by
  rw [Nat.max_comm]
  exact h.room _ (by rw [h.capacity, hk]; rfl)

theorem Inv.isFull_iff (h : Inv n l q) :
    q.isFull = true ↔ ∃ k, n = some k ∧ q.waiting.size = max k 1 := by
  cases hn : n with
  | none =>
    have hcap : q.capacity = none := by rw [h.capacity, hn]; rfl
    simp [isFull, hcap]
  | some k =>
    have hcap : q.capacity = some (max 1 k) := by rw [h.capacity, hn]; rfl
    have hle := h.room _ hcap
    rw [isFull_iff_of_capacity hcap]
    constructor
    · exact fun hge => ⟨k, rfl, by omega⟩
    · rintro ⟨_, ⟨⟩, he⟩
      omega

theorem Inv.waiting (h : Inv n l q) (hp : q.producing = true) (hq : q.consuming = true) :
    q.waiting.toList = (left l).map .item := by
  have hleft : left l = q.units := by rw [left, ← h.in_order hq, List.drop_left]
  have hitems : ∀ m ∈ q.waiting.toList, ∃ a, m = Message.item a := fun m hm => by
    have hsent : m ∈ sent l := by
      rw [← h.order hq]
      exact List.mem_append_right _ hm
    rw [h.going hp] at hsent
    obtain ⟨a, -, rfl⟩ := List.mem_map.mp hsent
    exact ⟨a, rfl⟩
  rw [hleft, units]
  generalize q.waiting.toList = ms at hitems
  induction ms with
  | nil => rfl
  | cons m ms ih =>
    obtain ⟨a, rfl⟩ := hitems m List.mem_cons_self
    exact congrArg _ (ih fun m hm => hitems m (List.mem_cons_of_mem _ hm))

theorem Inv.consumptions_after (h : Inv n l₁ q) (hp : q.producing = true) {q₁ : Queue α}
    {last : List (Message α)} (hw : q₁.waiting.toList = q.waiting.toList ++ last)
    (hp₁ : q₁.producing = false) (hq₁ : q₁.consuming = q.consuming) (hl : Calls q₁ l₂ q') :
    ∃ k, consumptions l₂ <+:
      (left l₁).map .item ++ (last.map .of ++ List.replicate k .closed) := by
  cases hq : q.consuming with
  | false =>
    refine ⟨0, ?_⟩
    rw [(refused_of_deserted hl (hq₁.trans hq)).1]
    exact List.nil_prefix
  | true =>
    obtain ⟨k, hk⟩ := consumptions_of_dropped hl hp₁
    refine ⟨k, ?_⟩
    rw [hw, h.waiting hp hq, List.map_append, List.map_map, List.append_assoc] at hk
    exact hk

theorem Inv.ending (h : Inv n l q) (hs : Step q .consume .ended q') :
    .finished ∈ sent l ∧ consumed l = accepted l ∧ q'.producing = false ∧
      q'.waiting.toList = [] := by
  generalize hr : (Answer.ended : Answer α) = r at hs
  cases hs with
  | add hc | refuse hc => cases hc
  | runOut => cases hr
  | @take m waiting hq hw =>
    cases m with
    | item a => cases hr
    | finished =>
      have horder := h.order hq
      rw [hw] at horder
      have hmem : .finished ∈ sent l := by
        rw [← horder]
        exact List.mem_append_right _ List.mem_cons_self
      have hitems : .finished ∉ (accepted l).map Message.item := fun hm => by
        obtain ⟨a, -, ha⟩ := List.mem_map.mp hm
        cases ha
      rcases h.marker with hm | ⟨hm, hp⟩
      · rw [hm] at hmem
        exact absurd hmem hitems
      · rw [hm] at horder
        rcases List.eq_nil_or_concat waiting.toList with hnil | ⟨ms, m, hms⟩
        · rw [hnil] at horder
          have hreceived := (List.append_inj' horder rfl).1
          refine ⟨hmem, ?_, hp, hnil⟩
          rw [consumed, accepted, hreceived, hm, List.filterMap_append]
          exact (List.append_nil _).symm
        · rw [hms, List.concat_eq_append, ← List.cons_append, ← List.append_assoc] at horder
          refine absurd ?_ hitems
          rw [← (List.append_inj' horder rfl).1]
          exact List.mem_append_right _ List.mem_cons_self

theorem call?_of_refused (hp : q.producing = true) (hq : q.consuming = false)
    (hm : c.message?.isSome = true) : ∃ q', q.call? c = some (.closed, q') := by
  have hclosed (m : Message α) : q.send m = .closed := by simp [send, hq]
  cases c with
  | produce a | tryProduce a =>
    exact ⟨q, by simp [call?, has, Call.side, hp, perform?, hclosed]⟩
  | finish => exact ⟨q.dropProducer, by simp [call?, has, Call.side, hp, perform?, hclosed]⟩
  | size | consume | isEmpty | drop => cases hm

theorem Step.of_finish (h : Step q .finish .done q') :
    q.producing = true ∧ q'.waiting.toList = q.waiting.toList ++ [.finished] ∧
      q'.producing = false ∧ q'.consuming = q.consuming := by
  cases h with
  | add hc => cases hc
  | finish hp => exact ⟨hp, Fifo.toList_push _ _, rfl, rfl⟩

theorem Step.of_dropProducer (h : Step q (.drop .producer) r q') :
    q.producing = true ∧ q' = q.dropProducer := by
  cases h with
  | add hc | refuse hc => cases hc
  | dropProducer hp => exact ⟨hp, rfl⟩

theorem Step.of_dropConsumer (h : Step q (.drop .consumer) r q') : q'.consuming = false := by
  cases h with
  | add hc | refuse hc => cases hc
  | dropConsumer => rfl

/-- **A unit queue is first in, first out, with one end**, whatever is asked of it at its two ends
and in whatever order. -/
theorem first_in_first_out (h : Calls (Queue.new n) l q) : Lawful n l q := by
  have hinv := h.inv
  refine ⟨hinv.in_order, hinv.bounded, hinv.isFull_iff, fun c => call?_eq_none_iff, ?_, ?_, ?_, ?_,
    ?_, ?_, ?_, ?_, ?_⟩
  · intro side b q' hc
    cases step_of_call? hc with
    | isEmpty => exact ⟨rfl, Fifo.isEmpty_iff _⟩
  · rintro l₁ l₂ rfl
    obtain ⟨q₁, q₂, -, hc, h₂⟩ := h.split
    have hsent := sent_of_dropped h₂ (step_of_call? hc).of_finish.2.2.1
    refine ⟨?_, fun hm => ?_⟩
    · rw [accepted, hsent]
      rfl
    · have hm := finished_mem_sent_iff.mpr hm
      rw [hsent] at hm
      cases hm
  · rintro l₁ l₂ rfl
    obtain ⟨q₁, q₂, h₁, hc, h₂⟩ := h.split
    obtain ⟨hmem, hall, hp, hw⟩ := h₁.inv.ending (step_of_call? hc)
    obtain ⟨k, hk⟩ := consumptions_of_dropped h₂ hp
    refine ⟨finished_mem_sent_iff.mp hmem, ?_, fun r hr => ?_⟩
    · have hnone : sent l₂ = [] := sent_of_dropped h₂ hp
      have hsent : sent ((.consume, .ended) :: l₂) = [] := hnone
      rw [hall, accepted, accepted, sent_append, hsent, List.append_nil]
    · rw [hw] at hk
      exact List.eq_of_mem_replicate (hk.subset hr)
  · rintro l₁ l₂ rfl
    obtain ⟨q₁, q₂, h₁, hc, h₂⟩ := h.split
    obtain ⟨hp, hw, hp₂, hq₂⟩ := (step_of_call? hc).of_finish
    exact h₁.inv.consumptions_after hp hw hp₂ hq₂ h₂
  · rintro l₁ l₂ rfl
    obtain ⟨q₁, q₂, h₁, hc, h₂⟩ := h.split
    obtain ⟨hp, rfl⟩ := (step_of_call? hc).of_dropProducer
    have hw : q₁.dropProducer.waiting.toList = q₁.waiting.toList ++ [] := (List.append_nil _).symm
    exact h₁.inv.consumptions_after hp hw rfl rfl h₂
  · intro a hp hq hf
    simp [call?, has, Call.side, hp, perform?, send, hq, hf]
  · intro a b q' hc
    cases step_of_call? hc with
    | back _ _ hf => exact ⟨rfl, rfl, hf⟩
  · rintro l₁ l₂ rfl
    obtain ⟨q₁, q₂, -, hc, h₂⟩ := h.split
    exact (refused_of_deserted h₂ (step_of_call? hc).of_dropConsumer).2
  · exact fun hm hp c => call?_of_refused hp (hinv.deserted hm)

/-- One item may wait: the second one comes back, and the end is told once. -/
theorem first_in_first_out_narrow :
    let l : History Nat := [(.produce 1, .done), (.tryProduce 2, .back 2), (.consume, .item 1),
      (.finish, .done), (.consume, .ended), (.consume, .closed)]
    ∃ q, Calls (Queue.new (some 0)) l q ∧ Lawful (some 0) l q := by
  intro l
  have h : Calls (Queue.new (some 0)) l _ :=
    .cons rfl (.cons rfl (.cons rfl (.cons rfl (.cons rfl (.cons rfl (.nil _))))))
  exact ⟨_, h, first_in_first_out h⟩

end Queue

end Coprocess
