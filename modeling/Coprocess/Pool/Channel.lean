import Coprocess.Fifo

/-!
# Channels

A bounded queue between several senders and several receivers.

* `Channel`; `Channel.send`, `Channel.receive`;
* `Channel.dropSender`, `Channel.dropReceiver`.
-/

namespace Coprocess

/-- What waits between senders and receivers, and how many there are of them. -/
structure Channel (α : Type) where
  /-- How many items may wait. -/
  capacity : Nat
  waiting : Fifo α := {}
  senders : Nat
  receivers : Nat

namespace Channel

variable {α : Type}

/-- What becomes of an item that is sent. -/
inductive Sent (α : Type)
  | accepted (c : Channel α)
  | full
  /-- There is no receiver any more. -/
  | closed

/-- Sends an item if there is room for it. -/
def send (c : Channel α) (a : α) : Sent α :=
  if c.receivers = 0 then .closed
  else if c.capacity ≤ c.waiting.size then .full
  else .accepted { c with waiting := c.waiting.push a }

/-- What a receiver gets. -/
inductive Received (α : Type)
  | item (a : α) (c : Channel α)
  | empty
  /-- Nothing waits, and there is no sender any more. -/
  | disconnected

/-- Takes the item that waited longest. -/
def receive (c : Channel α) : Received α :=
  match c.waiting.pop? with
  | some (a, waiting) => .item a { c with waiting }
  | none => if c.senders = 0 then .disconnected else .empty

/-- A sender is gone. -/
def dropSender (c : Channel α) : Channel α := { c with senders := c.senders - 1 }

/-- A receiver is gone. -/
def dropReceiver (c : Channel α) : Channel α := { c with receivers := c.receivers - 1 }

end Channel

end Coprocess
