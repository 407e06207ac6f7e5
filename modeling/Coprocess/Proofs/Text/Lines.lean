import Coprocess.Bytes
import Mathlib.Data.List.TakeWhile

/-!
# Lines of a stream

* `Terminated`: whole lines, with nothing after the last line feed;
* `line_induction`: bytes are nothing, a rest without line feed, or a line and more bytes;
* **`lines_append`**: whole lines can be read apart from what follows them;
* `length_lines_of_terminated`, `length_lines`: how many lines there are;
* `lines_flatMap`, `flatMap_lines`, `intercalate_lines`: lines that are written again.
-/

namespace Coprocess

/-! ## The first line -/

theorem ne_lf_of_not_mem {l : Bytes} (hl : lf ∉ l) : ∀ b ∈ l, decide (b ≠ lf) = true :=
  fun _ hb => decide_eq_true fun e => hl (e ▸ hb)

theorem dropWhile_line {l : Bytes} (hl : lf ∉ l) (s : Bytes) :
    (l ++ lf :: s).dropWhile (· ≠ lf) = lf :: s := by
  rw [List.dropWhile_append_of_pos (ne_lf_of_not_mem hl)]
  simp

theorem takeWhile_line {l : Bytes} (hl : lf ∉ l) (s : Bytes) :
    (l ++ lf :: s).takeWhile (· ≠ lf) = l := by
  rw [List.takeWhile_append_of_pos (ne_lf_of_not_mem hl)]
  simp

theorem dropWhile_eq_nil_iff_not_mem {s : Bytes} :
    s.dropWhile (· ≠ lf) = [] ↔ lf ∉ s := by
  rw [List.dropWhile_eq_nil_iff]
  constructor
  · intro h hm
    simpa using h lf hm
  · exact ne_lf_of_not_mem

theorem cutLine_line {l : Bytes} (hl : lf ∉ l) (s : Bytes) :
    cutLine (l ++ lf :: s) = (l ++ [lf], s) := by
  unfold cutLine
  rw [dropWhile_line hl, takeWhile_line hl]

theorem cutLine_rest {l : Bytes} (hl : lf ∉ l) : cutLine l = (l, []) := by
  unfold cutLine
  rw [dropWhile_eq_nil_iff_not_mem.mpr hl]

theorem nextLine?_line {l : Bytes} (hl : lf ∉ l) (s : Bytes) :
    nextLine? (l ++ lf :: s) = some (l, s) := by
  unfold nextLine?
  rw [if_neg (by simp), cutLine_line hl]
  simp [chomp]

theorem chomp_rest {l : Bytes} (hl : lf ∉ l) : chomp l = l := by
  unfold chomp
  rw [if_neg]
  exact fun h => hl (List.mem_of_getLast? h)

theorem nextLine?_rest {l : Bytes} (hl : lf ∉ l) (hne : l ≠ []) :
    nextLine? l = some (l, []) := by
  unfold nextLine?
  rw [if_neg (by simpa using hne), cutLine_rest hl]
  simp [chomp_rest hl]

/-- Bytes are nothing, a rest without line feed, or a line and what follows it. -/
theorem line_induction {motive : Bytes → Prop} (nil : motive [])
    (rest : ∀ l, lf ∉ l → l ≠ [] → motive l)
    (line : ∀ l s, lf ∉ l → motive s → motive (l ++ lf :: s)) (s : Bytes) : motive s := by
  by_cases hm : lf ∈ s
  · obtain ⟨l, t, e, hl⟩ := List.eq_append_cons_of_mem hm
    subst e
    exact line l t hl (line_induction nil rest line t)
  · by_cases hne : s = []
    · subst hne
      exact nil
    · exact rest s hm hne
termination_by s.length

/-! ## All lines -/

theorem linesOnto_of_nextLine? {s line rest : Bytes} (h : nextLine? s = some (line, rest))
    (read : List Bytes) : linesOnto read s = linesOnto (line :: read) rest := by
  rw [linesOnto]
  split <;> simp_all

@[simp] theorem linesOnto_nil (read : List Bytes) : linesOnto read [] = read.reverse := by
  rw [linesOnto]
  rfl

theorem linesOnto_eq (s : Bytes) : ∀ read, linesOnto read s = read.reverse ++ lines s := by
  unfold lines
  induction s using line_induction with
  | nil => simp
  | rest l hl hne =>
    intro read
    simp [linesOnto_of_nextLine? (nextLine?_rest hl hne)]
  | line l s hl ih =>
    intro read
    rw [linesOnto_of_nextLine? (nextLine?_line hl s), linesOnto_of_nextLine? (nextLine?_line hl s),
      ih (l :: read), ih [l]]
    simp

@[simp] theorem lines_nil : lines [] = [] := linesOnto_nil []

theorem lines_of_nextLine? {s line rest : Bytes} (h : nextLine? s = some (line, rest)) :
    lines s = line :: lines rest := by
  unfold lines
  rw [linesOnto_of_nextLine? h, linesOnto_eq]
  rfl

theorem lines_line {l : Bytes} (hl : lf ∉ l) (s : Bytes) : lines (l ++ lf :: s) = l :: lines s :=
  lines_of_nextLine? (nextLine?_line hl s)

theorem lines_rest {l : Bytes} (hl : lf ∉ l) (hne : l ≠ []) : lines l = [l] := by
  rw [lines_of_nextLine? (nextLine?_rest hl hne), lines_nil]

@[simp] theorem lines_eq_nil_iff {s : Bytes} : lines s = [] ↔ s = [] := by
  induction s using line_induction with
  | nil => simp
  | rest l hl hne => simp [lines_rest hl hne, hne]
  | line l s hl _ => simp [lines_line hl]

/-! ## Whole lines -/

/-- Whole lines: nothing follows the last line feed. -/
def Terminated (s : Bytes) : Prop := s = [] ∨ s.getLast? = some lf

theorem terminated_nil : Terminated [] := .inl rfl

theorem terminated_concat (s : Bytes) : Terminated (s ++ [lf]) := .inr (by simp)

theorem Terminated.append {s t : Bytes} (hs : Terminated s) (ht : Terminated t) :
    Terminated (s ++ t) := by
  rcases ht with rfl | ht
  · simpa using hs
  · exact .inr (by rw [List.getLast?_append, ht]; rfl)

theorem Terminated.tail {l s : Bytes} (h : Terminated (l ++ lf :: s)) : Terminated s := by
  cases s with
  | nil => exact terminated_nil
  | cons b s =>
    rcases h with h | h
    · simp at h
    · refine .inr ?_
      rw [List.getLast?_append, List.getLast?_cons_cons] at h
      simpa using h

theorem terminated_line_iff {l s : Bytes} : Terminated (l ++ lf :: s) ↔ Terminated s := by
  refine ⟨Terminated.tail, fun h => ?_⟩
  have := (terminated_concat l).append h
  rwa [List.append_assoc] at this

theorem not_terminated_rest {l : Bytes} (hl : lf ∉ l) (hne : l ≠ []) : ¬ Terminated l := by
  rintro (h | h)
  · exact hne h
  · exact hl (List.mem_of_getLast? h)

/-- **Whole lines can be read apart from what follows them.** -/
theorem lines_append {s : Bytes} (h : Terminated s) (t : Bytes) :
    lines (s ++ t) = lines s ++ lines t := by
  induction s using line_induction with
  | nil => simp
  | rest l hl hne => exact absurd h (not_terminated_rest hl hne)
  | line l s hl ih =>
    rw [List.append_assoc, List.cons_append, lines_line hl, lines_line hl, ih h.tail]
    rfl

/-! ## Counting -/

theorem countLf_append (s t : Bytes) : countLf (s ++ t) = countLf s + countLf t :=
  List.count_append

theorem countLf_eq_zero {s : Bytes} (h : lf ∉ s) : countLf s = 0 := List.count_eq_zero.mpr h

theorem countLf_line {l : Bytes} (hl : lf ∉ l) (s : Bytes) :
    countLf (l ++ lf :: s) = countLf s + 1 := by
  rw [countLf_append, countLf_eq_zero hl, Nat.zero_add]
  exact List.count_cons_self

theorem length_lines_of_terminated {s : Bytes} (h : Terminated s) :
    (lines s).length = countLf s := by
  induction s using line_induction with
  | nil => simp [countLf]
  | rest l hl hne => exact absurd h (not_terminated_rest hl hne)
  | line l s hl ih => rw [lines_line hl, countLf_line hl, List.length_cons, ih h.tail]

theorem Terminated.eq_nil_of_countLf {s r : Bytes} (ht : Terminated (s ++ r))
    (hc : countLf r = 0) : r = [] := by
  cases hlast : r.getLast? with
  | none => exact List.getLast?_eq_none_iff.mp hlast
  | some b =>
    rcases ht with ht | ht
    · exact (List.append_eq_nil_iff.mp ht).2
    · rw [List.getLast?_append, hlast] at ht
      obtain rfl : b = lf := Option.some.inj ht
      exact absurd (List.mem_of_getLast? hlast) (List.count_eq_zero.mp hc)

instance (s : Bytes) : Decidable (Terminated s) :=
  inferInstanceAs (Decidable (s = [] ∨ s.getLast? = some lf))

theorem length_lines (s : Bytes) :
    (lines s).length = if Terminated s then countLf s else countLf s + 1 := by
  induction s using line_induction with
  | nil => simp [countLf, terminated_nil]
  | rest l hl hne =>
    rw [lines_rest hl hne, if_neg (not_terminated_rest hl hne), countLf_eq_zero hl]
    rfl
  | line l s hl ih =>
    rw [lines_line hl, List.length_cons, ih, countLf_line hl]
    simp only [terminated_line_iff]
    split_ifs <;> rfl

/-! ## Lines written back -/

theorem lines_flatMap {ls : List Bytes} (h : ∀ l ∈ ls, lf ∉ l) :
    lines (ls.flatMap (· ++ [lf])) = ls := by
  induction ls with
  | nil => simp
  | cons l ls ih =>
    have hl : lf ∉ l := h l List.mem_cons_self
    have hr := ih fun m hm => h m (List.mem_cons_of_mem l hm)
    rw [List.flatMap_cons, List.append_assoc, List.singleton_append, lines_line hl, hr]

theorem flatMap_lines (s : Bytes) :
    (lines s).flatMap (· ++ [lf]) = if Terminated s then s else s ++ [lf] := by
  induction s using line_induction with
  | nil => simp [terminated_nil]
  | rest l hl hne => simp [lines_rest hl hne, not_terminated_rest hl hne]
  | line l s hl ih =>
    rw [lines_line hl, List.flatMap_cons, ih]
    simp only [terminated_line_iff]
    split_ifs <;> simp

theorem not_mem_of_mem_lines {s l : Bytes} (h : l ∈ lines s) : lf ∉ l := by
  induction s using line_induction with
  | nil => simp at h
  | rest m hm hne =>
    rw [lines_rest hm hne] at h
    rwa [List.mem_singleton.mp h]
  | line m s hm ih =>
    rw [lines_line hm] at h
    rcases List.mem_cons.mp h with rfl | h
    · exact hm
    · exact ih h

theorem intercalate_lines (s : Bytes) : List.intercalate [lf] (lines (s ++ [lf])) = s := by
  induction s using line_induction with
  | nil => rw [List.nil_append, ← List.nil_append [lf], lines_line (by simp), lines_nil]; rfl
  | rest l hl hne => rw [lines_line hl, lines_nil, List.intercalate_singleton]
  | line l s hl ih =>
    have hne : lines (s ++ [lf]) ≠ [] := by simp
    obtain ⟨m, ms, e⟩ := List.exists_cons_of_ne_nil hne
    rw [List.append_assoc, List.cons_append, lines_line hl, e, List.intercalate_cons_cons, ← e, ih]
    simp

theorem countLf_le_length_lines (s : Bytes) : countLf s ≤ (lines s).length := by
  rw [length_lines]
  split_ifs <;> omega

theorem length_lines_le (s t : Bytes) : (lines s).length ≤ (lines (s ++ t)).length := by
  induction s using line_induction with
  | nil => simp
  | rest l hl hne =>
    rw [lines_rest hl hne]
    exact List.length_pos_iff.mpr (by simp [hne])
  | line l s hl ih =>
    rw [List.append_assoc, List.cons_append, lines_line hl, lines_line hl, List.length_cons,
      List.length_cons]
    exact Nat.succ_le_succ ih

end Coprocess
