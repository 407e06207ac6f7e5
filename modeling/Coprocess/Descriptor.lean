import Coprocess.Bytes

/-!
# Unit descriptors

A unit is what the outside sees: a document, a long line, a repeated line. The child sees only
lines, so a unit is sent as a `Parcel`: lines for the child, and a `Descriptor` that tells how many
answers belong to the unit and how they are put together.

* `Slots`: the answers kept for lines that may come again; a slot is written once;
* `Descriptor.expected`: how many lines of the child the unit takes;
* `Descriptor.assemble`: the unit from these lines.
-/

namespace Coprocess

/-! ## Slots -/

/-- The answers kept so far, each with the number of its slot, newest first. -/
structure Slots where
  filled : List (Nat × Bytes) := []

namespace Slots

/-- The answer in a slot, if there is one. -/
def get? (s : Slots) (slot : Nat) : Option Bytes := s.filled.lookup slot

/-- Fills a slot that is empty; a filled one keeps its answer. -/
def fill (s : Slots) (slot : Nat) (answer : Bytes) : Slots :=
  if (s.get? slot).isSome then s else ⟨(slot, answer) :: s.filled⟩

/-- Slots with the given answers; slot `i` is filled by the entry at `i`. -/
def ofList (answers : List (Option Bytes)) : Slots :=
  answers.zipIdx.foldl (fun s (answer, i) => answer.elim s (s.fill i)) {}

theorem get?_fill (s : Slots) (i j : Nat) (answer : Bytes) :
    (s.fill i answer).get? j = if i = j then some ((s.get? i).getD answer) else s.get? j := by
  unfold fill
  split
  · rename_i h
    split
    · rename_i e
      subst e
      obtain ⟨a, ha⟩ := Option.isSome_iff_exists.mp h
      simp [ha]
    · rfl
  · rename_i h
    have h : s.get? i = none := by simpa using h
    by_cases e : i = j
    · subst e
      rw [h]
      simp [get?]
    · have e' : (j == i) = false := by simpa using Ne.symm e
      simp [get?, List.lookup_cons, e, e']

end Slots

/-! ## Descriptors -/

/-- How a unit is put together from lines of the child. -/
inductive Descriptor
  /-- Lines joined by line feeds, with a final line feed if `trailingLf`. -/
  | document (lineCount : Nat) (trailingLf : Bool)
  /-- One line for each delimiter, which follows it. -/
  | wrapped (delimiters : List Bytes)
  /-- One line while the slot is empty, none once it is filled. -/
  | cached (slot : Nat)

namespace Descriptor

/-- How many lines of the child the unit takes. -/
def expected (slots : Slots) : Descriptor → Nat
  | document lineCount _ => lineCount
  | wrapped delimiters => delimiters.length
  | cached slot => if (slots.get? slot).isSome then 0 else 1

/-- The unit put together from lines of the child, and the slots afterwards. -/
def assemble (lines : List Bytes) (slots : Slots) : Descriptor → Bytes × Slots
  | document _ trailingLf =>
    (List.intercalate [lf] lines ++ (if trailingLf then [lf] else []), slots)
  | wrapped delimiters => ((List.zipWith (· ++ ·) lines delimiters).flatten, slots)
  | cached slot =>
    let slots := slots.fill slot (lines.headD [])
    ((slots.get? slot).getD [], slots)

end Descriptor

/-- A unit on its way: its descriptor and the lines for the child, which may be none. -/
structure Parcel where
  descriptor : Descriptor
  payload : Bytes

/-- A document as lines for the child; the empty document is one empty line. -/
def describeDocument (document : Bytes) : Parcel :=
  let trailingLf := document.getLast? = some lf
  let payload := if trailingLf then document else document ++ [lf]
  ⟨.document (countLf payload) trailingLf, payload⟩

end Coprocess
