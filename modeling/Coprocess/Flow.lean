import Coprocess.Failure

/-!
# Flow control

* `Flow`: how often a child's input is flushed, and how many units may wait;
* `Flow.check`: which settings are refused.
-/

namespace Coprocess

/-- Flow control between the tool and one child. -/
structure Flow where
  /-- How many units are written between flushes. -/
  flushEvery : Nat := 4096
  /-- How many units may wait. -/
  capacity : Option Nat := none

/-- Refuses flow control that never flushes. -/
def Flow.check (f : Flow) : Except Misuse Unit :=
  if f.flushEvery = 0 then .error .zeroFlushInterval else .ok ()

end Coprocess
