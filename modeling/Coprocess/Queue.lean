import Coprocess.Fifo

/-!
# The unit queue

A queue between one producer and one consumer. The end of the stream is a message of its own, sent
when the producer finishes; a producer that is dropped sends none.

* `Message`, `Queue`;
* `Queue.send`: accepted, full, or closed when the consumer is gone;
* `Queue.receive`: a message, nothing yet, or closed when the producer is gone as well.
-/

namespace Coprocess

/-- What travels through a queue. -/
inductive Message (α : Type)
  | item (a : α)
  /-- Nothing follows. -/
  | finished

/-- A queue with its two ends. -/
structure Queue (α : Type) where
  /-- How many messages may wait; any number without a capacity. -/
  capacity : Option Nat := none
  waiting : Fifo (Message α) := {}
  /-- The producer has neither finished nor been dropped. -/
  producing : Bool := true
  /-- The consumer has not been dropped. -/
  consuming : Bool := true

namespace Queue

variable {α : Type}

/-- An empty queue. One message may wait at least. -/
def new (capacity : Option Nat) : Queue α := { capacity := capacity.map (max 1) }

/-- As many messages wait as may. -/
def isFull (q : Queue α) : Bool := q.capacity.any (· ≤ q.waiting.size)

/-- What becomes of a message that is sent. -/
inductive Sent (α : Type)
  | accepted (q : Queue α)
  | full
  | closed

/-- Sends a message if there is room for it. -/
def send (q : Queue α) (m : Message α) : Sent α :=
  if !q.consuming then .closed
  else if q.isFull then .full
  else .accepted { q with waiting := q.waiting.push m }

/-- The producer is gone. -/
def dropProducer (q : Queue α) : Queue α := { q with producing := false }

/-- The consumer is gone. What waits in an unbounded queue goes with it. -/
def dropConsumer (q : Queue α) : Queue α :=
  { q with
    consuming := false
    waiting := if q.capacity.isNone then {} else q.waiting }

/-- What the consumer gets. -/
inductive Received (α : Type)
  | message (m : Message α) (q : Queue α)
  /-- Nothing waits, but the producer is there. -/
  | empty
  /-- Nothing waits, and the producer is gone. -/
  | closed

/-- Takes the message that waited longest. -/
def receive (q : Queue α) : Received α :=
  match q.waiting.pop? with
  | some (m, waiting) => .message m { q with waiting }
  | none => if q.producing then .empty else .closed

theorem isFull_iff {q : Queue α} :
    q.isFull = true ↔ ∃ n, q.capacity = some n ∧ n ≤ q.waiting.toList.length := by
  unfold isFull
  rw [Option.any_eq_true]
  simp

theorem isFull_eq_false {q : Queue α} {n : Nat} (hc : q.capacity = some n)
    (h : q.waiting.toList.length < n) : q.isFull = false := by
  rw [Bool.eq_false_iff, Ne, isFull_iff]
  rintro ⟨m, hm, hle⟩
  rw [hc] at hm
  cases hm
  omega

theorem send_cases (q : Queue α) (m : Message α) :
    (q.consuming = false ∧ q.send m = .closed) ∨
      (q.consuming = true ∧ q.isFull = true ∧ q.send m = .full) ∨
      (q.consuming = true ∧ q.isFull = false ∧
        q.send m = .accepted { q with waiting := q.waiting.push m }) := by
  unfold send
  cases hc : q.consuming <;> cases hf : q.isFull <;> simp

theorem receive_cases (q : Queue α) :
    (∃ m waiting, q.waiting.toList = m :: waiting.toList ∧
        q.receive = .message m { q with waiting }) ∨
      (q.waiting.toList = [] ∧ q.producing = true ∧ q.receive = .empty) ∨
      (q.waiting.toList = [] ∧ q.producing = false ∧ q.receive = .closed) := by
  unfold receive
  cases hp : q.waiting.pop? with
  | some mw =>
    obtain ⟨m, waiting⟩ := mw
    exact .inl ⟨m, waiting, Fifo.toList_of_pop? hp, rfl⟩
  | none =>
    have hn := (Fifo.pop?_eq_none_iff _).mp hp
    cases q.producing <;> simp [hn]

end Queue

end Coprocess
