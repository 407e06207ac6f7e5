import Coprocess.Child

/-!
# Filters

A filter turns its input into output piece by piece.

* `Reply`: what a filter does with a piece, and `Reply.each`;
* `completeLines`: the lines that a piece completes.
-/

namespace Coprocess.Program

/-- What a filter does with a piece of its input: its state then, its output, and its exit code if
it is done. -/
structure Reply (σ : Type) where
  state : σ
  output : Bytes := []
  done : Option Nat := none

namespace Reply

variable {σ τ : Type}

/-- A reply of a filter that is a part of another one. -/
def map (f : σ → τ) (r : Reply σ) : Reply τ := ⟨f r.state, r.output, r.done⟩

/-- Lets a filter work on several items, until it is done. The output is held last piece first. -/
def each {α : Type} (work : σ → α → Reply σ) (s : σ) (pieces : List Bytes) :
    List α → Reply σ
  | [] => ⟨s, pieces.reverse.flatten, none⟩
  | a :: rest =>
    let r := work s a
    let pieces := r.output :: pieces
    match r.done with
    | some code => ⟨r.state, pieces.reverse.flatten, some code⟩
    | none => each work r.state pieces rest

end Reply

/-- The lines that some bytes complete after the bytes `held`, each with its line feed, and the
rest. -/
def completeLines (held s : Bytes) : List Bytes × Bytes :=
  let all := lines (held ++ s)
  if (held ++ s).getLast?.all (· = lf) then (all.map (· ++ [lf]), [])
  else (all.dropLast.map (· ++ [lf]), all.getLast?.getD [])

end Coprocess.Program
