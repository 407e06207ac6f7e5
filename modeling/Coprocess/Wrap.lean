import Coprocess.Failure

/-!
# Wrapping lines

A line is cut into pieces of at most a given width, counted in bytes. A cut is made where a run of
delimiters starts, at the most preferred delimiter seen since the last cut; without one it is made
at the width. A run of delimiters after a cut goes with the piece before it: into its text as far
as the width allows, or beside it, where it waits for the answer to the text.

* `WrapOptions`, `Piece`;
* `Wrap.Memory`: where the latest run of each delimiter started;
* `Wrap.scan`: reads on until the width is reached;
* `Wrap.cutPiece`: the next piece of a line;
* `wrap`: all pieces of a line.
-/

namespace Coprocess

/-- How lines are wrapped. -/
structure WrapOptions where
  /-- The most bytes in the text of a piece. -/
  width : Nat := 80
  /-- The characters to cut at, most preferred first. -/
  delimiters : List Char := [':', ',', ' ', '-', '.', '/']
  /-- Delimiters after a cut belong to the text of the piece. -/
  keepDelimiters : Bool := true

/-- A piece of a line and the delimiters that were taken out after it. -/
structure Piece where
  text : List Char
  delimiter : List Char
  deriving DecidableEq

/-- A wrapped piece has room for something. -/
def WrapOptions.validate (o : WrapOptions) : Except Misuse Unit :=
  if o.width = 0 then .error .zeroWidth else .ok ()

namespace Wrap

/-- What is known of the part of a line that was read. Positions count the bytes before them. -/
structure Memory where
  /-- For each delimiter, where the run that holds its latest occurrence started. -/
  starts : List Nat
  /-- Where the current run of delimiters started, or the current position outside a run. -/
  runStart : Nat

/-- The memory after the character `c`, behind which the position is `pos`. -/
def Memory.note (m : Memory) (o : WrapOptions) (c : Char) (pos : Nat) : Memory :=
  match o.delimiters.idxOf? c with
  | some i => { m with starts := m.starts.set i m.runStart }
  | none => { m with runStart := pos }

/-- Reads the characters at `pos` until the width after `base` is reached: the memory then, the
position, and the position before the last character. -/
def scan (o : WrapOptions) (base : Nat) : Nat → Memory → List Char → Option (Memory × Nat × Nat)
  | _, _, [] => none
  | pos, m, c :: cs =>
    let next := pos + Utf8.width c
    let m := m.note o c next
    if next - base < o.width then scan o base next m cs else some (m, next, pos)

/-- The characters in the first `n` bytes, and those that follow. -/
def splitBytes : Nat → List Char → List Char × List Char
  | 0, cs => ([], cs)
  | _, [] => ([], [])
  | n, c :: cs =>
    let (taken, rest) := splitBytes (n - Utf8.width c) cs
    (c :: taken, rest)

/-- The delimiters that go with a piece of `used` bytes, and what follows them. -/
def absorb (o : WrapOptions) (used : Nat) : List Char → List Char × List Char
  | [] => ([], [])
  | c :: cs =>
    if c ∈ o.delimiters ∧ ¬ (o.keepDelimiters ∧ o.width < used + Utf8.width c) then
      let (taken, rest) := absorb o (used + Utf8.width c) cs
      (c :: taken, rest)
    else ([], c :: cs)

/-- Where to cut: at the most preferred delimiter behind `base`, else at `pos`, where the width is
reached, or at `before` when the last character goes beyond it and is not alone. -/
def cutAt (o : WrapOptions) (m : Memory) (base pos before : Nat) : Nat :=
  (m.starts.find? (base < ·)).getD
    (if o.width < pos - base ∧ base < before then before else pos)

/-- The next piece of a line whose uncut part `ahead` starts at `base`, and the memory, the position
and the uncut part after it; `none` when the rest fits. -/
def cutPiece (o : WrapOptions) (m : Memory) (base : Nat) (ahead : List Char) :
    Option (Piece × Memory × Nat × List Char) :=
  match scan o base base m ahead with
  | none => none
  | some (m, pos, before) =>
    let size := cutAt o m base pos before - base
    let (text, tail) := splitBytes size ahead
    let (run, rest) := absorb o size tail
    let next := base + size + (Utf8.encode run).length
    let piece := if o.keepDelimiters then ⟨text ++ run, []⟩ else ⟨text, run⟩
    some (piece, { m with runStart := next }, next, rest)

/-! ## Every cut moves forward -/

theorem scan_lt {o : WrapOptions} {base pos : Nat} {m : Memory} {cs : List Char}
    {r : Memory × Nat × Nat} (h : scan o base pos m cs = some r) (hp : base ≤ pos) :
    base < r.2.1 ∧ cs ≠ [] := by
  induction cs generalizing pos m with
  | nil => simp [scan] at h
  | cons c cs ih =>
    refine ⟨?_, by simp⟩
    have hw : 0 < Utf8.width c := by
      unfold Utf8.width Utf8.encodeChar
      simp only
      split
      · simp
      · split
        · simp
        · split <;> simp
    simp only [scan] at h
    split at h
    · exact (ih h (by omega)).1
    · simp only [Option.some.injEq] at h
      rw [← h]
      simp only
      omega

theorem cutAt_lt {o : WrapOptions} {m : Memory} {base pos before : Nat} (h : base < pos) :
    base < cutAt o m base pos before := by
  unfold cutAt
  cases hf : m.starts.find? (base < ·) with
  | some p => simpa using List.find?_some hf
  | none => simp only [Option.getD_none]; split <;> omega

theorem splitBytes_length (n : Nat) (cs : List Char) :
    (splitBytes n cs).1.length + (splitBytes n cs).2.length = cs.length := by
  fun_induction splitBytes n cs <;> simp_all +arith

theorem absorb_length (o : WrapOptions) (used : Nat) (cs : List Char) :
    (absorb o used cs).1.length + (absorb o used cs).2.length = cs.length := by
  fun_induction absorb o used cs <;> simp_all +arith

theorem cutPiece_length_lt {o : WrapOptions} {m m' : Memory} {base next : Nat}
    {ahead rest : List Char} {p : Piece}
    (h : cutPiece o m base ahead = some (p, m', next, rest)) : rest.length < ahead.length := by
  unfold cutPiece at h
  split at h
  · simp at h
  · rename_i m₁ pos before hs
    obtain ⟨hlt, hne⟩ := scan_lt hs (Nat.le_refl _)
    have hcut : base < cutAt o m₁ base pos before := cutAt_lt hlt
    simp only [Option.some.injEq, Prod.mk.injEq] at h
    obtain ⟨-, -, -, rfl⟩ := h
    have ha := absorb_length o (cutAt o m₁ base pos before - base)
      (splitBytes (cutAt o m₁ base pos before - base) ahead).2
    have hs := splitBytes_length (cutAt o m₁ base pos before - base) ahead
    have h1 : 0 < (splitBytes (cutAt o m₁ base pos before - base) ahead).1.length := by
      cases ahead with
      | nil => exact absurd rfl hne
      | cons c cs =>
        obtain ⟨k, hk⟩ : ∃ k, cutAt o m₁ base pos before - base = k + 1 :=
          ⟨cutAt o m₁ base pos before - base - 1, by omega⟩
        rw [hk]
        simp [splitBytes]
    omega

/-- The pieces of a line after those in `cut`, which are held newest first. -/
def piecesOnto (o : WrapOptions) (cut : List Piece) (m : Memory) (base : Nat)
    (ahead : List Char) : List Piece :=
  match _h : cutPiece o m base ahead with
  | none => (if ahead.isEmpty then cut else ⟨ahead, []⟩ :: cut).reverse
  | some (piece, m, next, rest) => piecesOnto o (piece :: cut) m next rest
termination_by ahead.length
decreasing_by exact cutPiece_length_lt _h

end Wrap

/-- The pieces of a line, in order; the empty line is one empty piece. -/
def wrap (o : WrapOptions) (line : List Char) : List Piece :=
  if line.isEmpty then [⟨[], []⟩]
  else Wrap.piecesOnto o [] ⟨o.delimiters.map fun _ => 0, 0⟩ 0 line

end Coprocess
