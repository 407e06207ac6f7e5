import Coprocess.Queue

/-!
# Calls on a unit queue

* `Queue.Side`, `Queue.Call`: what can be asked of a queue, at which of its ends;
* `Queue.Answer`: what is answered;
* `Queue.perform?`: the answer and the queue after a call, or `none` while the call waits;
* `Queue.call?`: the same at an end that is still there.
-/

namespace Coprocess

/-- The item of a message, unless it is the end marker. -/
def Message.item? {α : Type} : Message α → Option α
  | .item a => some a
  | .finished => none

namespace Queue

variable {α : Type}

/-- The ends of a queue. -/
inductive Side
  | producer
  | consumer
  deriving DecidableEq, Repr

/-- What can be asked of a queue. -/
inductive Call (α : Type)
  /-- Adds an item, and waits while there is no room. -/
  | produce (a : α)
  /-- Adds an item if there is room. -/
  | tryProduce (a : α)
  /-- Adds the end marker, and waits while there is no room. The producer is used up. -/
  | finish
  /-- How much waits. -/
  | size
  /-- Takes what waited longest, and waits while the queue is empty. -/
  | consume
  | isEmpty (side : Side)
  | drop (side : Side)
  deriving DecidableEq, Repr

/-- The end at which something is asked. -/
def Call.side : Call α → Side
  | .produce _ | .tryProduce _ | .finish | .size => .producer
  | .consume => .consumer
  | .isEmpty side | .drop side => side

/-- What a queue answers. -/
inductive Answer (α : Type)
  | done
  /-- There was no room for the item. -/
  | back (a : α)
  | item (a : α)
  /-- The end marker was taken. -/
  | ended
  | size (n : Nat)
  | empty (b : Bool)
  /-- The other end is gone. -/
  | closed
  deriving DecidableEq, Repr

/-- The answer to who takes a message. -/
def Answer.of : Message α → Answer α
  | .item a => .item a
  | .finished => .ended

/-- The end is still there. -/
def has (q : Queue α) : Side → Bool
  | .producer => q.producing
  | .consumer => q.consuming

/-- The answer to a call and the queue after it, or `none` while the call waits. -/
def perform? (q : Queue α) : Call α → Option (Answer α × Queue α)
  | .produce a =>
    match q.send (.item a) with
    | .accepted q => some (.done, q)
    | .full => none
    | .closed => some (.closed, q)
  | .tryProduce a =>
    match q.send (.item a) with
    | .accepted q => some (.done, q)
    | .full => some (.back a, q)
    | .closed => some (.closed, q)
  | .finish =>
    match q.send .finished with
    | .accepted q => some (.done, q.dropProducer)
    | .full => none
    | .closed => some (.closed, q.dropProducer)
  | .size => some (.size q.waiting.size, q)
  | .consume =>
    match q.receive with
    | .message m q => some (.of m, q)
    | .empty => none
    | .closed => some (.closed, q)
  | .isEmpty _ => some (.empty q.waiting.isEmpty, q)
  | .drop .producer => some (.done, q.dropProducer)
  | .drop .consumer => some (.done, q.dropConsumer)

/-- The answer to a call at an end that is there, and the queue after it. -/
def call? (q : Queue α) (c : Call α) : Option (Answer α × Queue α) :=
  if q.has c.side then q.perform? c else none

end Queue

end Coprocess
