/-!
# Byte strings and lines

A line ends with a line feed, which is not part of it. A rest without a line feed that is not
empty is a line as well.

* `Bytes`, `lf`, `Bytes.ofString`;
* `cutLine`: the bytes up to and including the first line feed, and what follows them;
* `chomp`: a line without its line feed;
* `nextLine?`: the first line of some bytes and the rest; `lines`: all of them;
* `littleEndian`, `ofLittleEndian`: numbers as bytes.
-/

namespace Coprocess

/-- A string of bytes. -/
abbrev Bytes := List UInt8

/-- The line feed. -/
def lf : UInt8 := 10

/-- The carriage return. -/
def cr : UInt8 := 13

/-- The UTF-8 bytes of a text. -/
def Bytes.ofString (s : String) : Bytes := s.toUTF8.toList

/-- The bytes up to and including the first line feed, and what follows them. -/
def cutLine (s : Bytes) : Bytes × Bytes :=
  match s.dropWhile (· ≠ lf) with
  | [] => (s, [])
  | b :: rest => (s.takeWhile (· ≠ lf) ++ [b], rest)

/-- A line without its final line feed. -/
def chomp (line : Bytes) : Bytes :=
  if line.getLast? = some lf then line.dropLast else line

/-- The first line and what follows it, or `none` when nothing is left. -/
def nextLine? (s : Bytes) : Option (Bytes × Bytes) :=
  if s.isEmpty then none else
    let (line, rest) := cutLine s
    some (chomp line, rest)

/-- A number in so many bytes, lowest first. -/
def littleEndian : Nat → Nat → Bytes
  | 0, _ => []
  | width + 1, n => .ofNat n :: littleEndian width (n / 256)

/-- The number that some bytes stand for, lowest first. -/
def ofLittleEndian : Bytes → Nat
  | [] => 0
  | b :: s => b.toNat + 256 * ofLittleEndian s

/-- The number of line feeds. -/
def countLf (s : Bytes) : Nat := s.count lf

theorem cutLine_append (s : Bytes) : (cutLine s).1 ++ (cutLine s).2 = s := by
  have h : s.takeWhile (· ≠ lf) ++ s.dropWhile (· ≠ lf) = s := List.takeWhile_append_dropWhile
  unfold cutLine
  split
  · simp
  · rename_i b rest e
    rw [e] at h
    simpa using h

theorem cutLine_length_lt {s : Bytes} (h : s ≠ []) : (cutLine s).2.length < s.length := by
  have hs := congrArg List.length (cutLine_append s)
  have hl : 0 < (cutLine s).1.length := by
    unfold cutLine
    split
    · exact List.length_pos_iff.mpr h
    · simp
  simp only [List.length_append] at hs
  omega

theorem nextLine?_length_lt {s line rest : Bytes} (h : nextLine? s = some (line, rest)) :
    rest.length < s.length := by
  unfold nextLine? at h
  split at h
  · simp at h
  · rename_i hs
    simp only [Option.some.injEq, Prod.mk.injEq] at h
    rw [← h.2]
    exact cutLine_length_lt (by simpa using hs)

/-- Lines read from `s` after the lines `read`, which are held newest first. -/
def linesOnto (read : List Bytes) (s : Bytes) : List Bytes :=
  match _h : nextLine? s with
  | none => read.reverse
  | some (line, rest) => linesOnto (line :: read) rest
termination_by s.length
decreasing_by exact nextLine?_length_lt _h

/-- All lines of some bytes, in order. -/
def lines (s : Bytes) : List Bytes := linesOnto [] s

end Coprocess
