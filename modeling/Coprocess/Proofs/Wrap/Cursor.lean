import Coprocess.Proofs.Wrap.Pieces

/-!
# Wrapping by positions

A line can be wrapped in one pass that knows nothing but byte positions: where the next character is
read, and where the line was cut last. After a cut the pass goes back to it, and what was noted of
the characters beyond it stays. All that is read or cut is a slice of the line, which is there only
between boundaries of characters.

* `Wrap.dropBytes?`, `Wrap.sliceBytes?`: slices of a text, none where a position is no boundary;
  `Wrap.Boundary`;
* `Wrap.Cursor`, `Wrap.Cursor.turn?`: where the pass stands, and one turn of its loop, none if a
  slice is not there;
* `Wrap.Cursor.left`, `Wrap.Cursor.left_lt`: what lies behind the last cut and behind the position,
  and that every turn leaves less of it;
* `Wrap.Cursor.run?`: the pieces in the end;
* `Wrap.Stands`, `Wrap.Stands.turn_cases`: what is known of a cursor, and that a turn keeps it;
* `Wrap.Stands.run?_eq`: the pieces that the loop ends with, by the measure of its turns;
* `Wrap.Reached`, `Wrap.CutsWell`: the cursors that the loop comes to, and what is true of a cut;
* **`Wrap.cursor_safe`**: no turn lacks a slice, every turn leaves less, and in the end there are
  the pieces of the line.
-/

namespace Coprocess.Wrap

/-! ## Slices -/

/-- The text behind its first `n` bytes, if a character ends there. -/
def dropBytes? : Nat → List Char → Option (List Char)
  | 0, text => some text
  | _ + 1, [] => none
  | n + 1, c :: text =>
    if Utf8.width c ≤ n + 1 then dropBytes? (n + 1 - Utf8.width c) text else none

/-- The text between two byte positions, if these are boundaries in order. -/
def sliceBytes? (i j : Nat) (text : List Char) : Option (List Char) := do
  let tail ← dropBytes? i text
  let rest ← dropBytes? j text
  if i ≤ j then return tail.take (tail.length - rest.length) else none

/-- A character begins or ends at the position, or it is an end of the text. -/
def Boundary (text : List Char) (i : Nat) : Prop := ∃ s, s <+: text ∧ size s = i

theorem dropBytes?_eq_some_iff {n : Nat} {text t : List Char} :
    dropBytes? n text = some t ↔ ∃ s, text = s ++ t ∧ size s = n := by
  fun_induction dropBytes? n text with
  | case1 text =>
    rw [Option.some.injEq]
    constructor
    · rintro rfl
      exact ⟨[], rfl, rfl⟩
    · rintro ⟨s, rfl, hs⟩
      rw [size_eq_zero_iff.mp hs, List.nil_append]
  | case2 n =>
    refine iff_of_false (by simp) ?_
    rintro ⟨s, hs, hsize⟩
    obtain ⟨rfl, -⟩ := List.nil_eq_append_iff.mp hs
    cases hsize
  | case3 n c text hc ih =>
    rw [ih]
    constructor
    · rintro ⟨s, rfl, hs⟩
      refine ⟨c :: s, rfl, ?_⟩
      rw [size_cons, hs]
      exact Nat.add_sub_of_le hc
    · rintro ⟨s, hs, hsize⟩
      cases s with
      | nil => cases hsize
      | cons d s =>
        obtain ⟨rfl, rfl⟩ := List.cons.inj hs
        rw [size_cons] at hsize
        exact ⟨s, rfl, Nat.eq_sub_of_add_eq' hsize⟩
  | case4 n c text hc =>
    refine iff_of_false (by simp) ?_
    rintro ⟨s, hs, hsize⟩
    cases s with
    | nil => cases hsize
    | cons d s =>
      obtain ⟨rfl, -⟩ := List.cons.inj hs
      rw [size_cons] at hsize
      omega

theorem dropBytes?_append (s t : List Char) : dropBytes? (size s) (s ++ t) = some t :=
  dropBytes?_eq_some_iff.mpr ⟨s, rfl, rfl⟩

theorem size_concat (s : List Char) (c : Char) : size (s ++ [c]) = size s + Utf8.width c := by
  rw [size_append, size_cons, ← Nat.add_assoc]
  rfl

theorem sliceBytes?_append (a b c : List Char) :
    sliceBytes? (size a) (size (a ++ b)) (a ++ b ++ c) = some b := by
  have htail : dropBytes? (size a) (a ++ b ++ c) = some (b ++ c) := by
    rw [List.append_assoc]
    exact dropBytes?_append a (b ++ c)
  have hrest : dropBytes? (size (a ++ b)) (a ++ b ++ c) = some c := dropBytes?_append (a ++ b) c
  rw [sliceBytes?, htail, hrest, size_append]
  simp

theorem boundary_append (s t : List Char) : Boundary (s ++ t) (size s) :=
  ⟨s, List.prefix_append s t, rfl⟩

/-! ## The loop -/

/-- Where the pass over a line stands. -/
structure Cursor where
  /-- Where the next character is read. -/
  pos : Nat
  /-- Where the line was cut last. -/
  lastCut : Nat
  memory : Memory
  /-- The pieces so far, newest first. -/
  pieces : List Piece
  le : lastCut ≤ pos := by omega

/-- What a turn of the loop comes to. -/
inductive Turn
  /-- The line is read to its end. -/
  | stop
  /-- A character has been read. -/
  | read (next : Cursor)
  /-- A character has been read up to `pos`, and the line is cut at `place`. -/
  | cut (pos place : Nat) (next : Cursor)

/-- Where the loop goes on. -/
def Turn.next? : Turn → Option Cursor
  | stop => none
  | read next => some next
  | cut _ _ next => some next

/-- Where the delimiters end that go with a piece of the line that starts at `base` and is cut
before `i`. -/
def passRun? (o : WrapOptions) (line : List Char) (base i : Nat) : Option Nat :=
  match _h : dropBytes? i line with
  | none => none
  | some [] => some i
  | some (c :: _) =>
    if o.keepDelimiters ∧ o.width < i + Utf8.width c - base then some i
    else if c ∈ o.delimiters then passRun? o line base (i + Utf8.width c)
    else some i
termination_by size line - i
decreasing_by
  obtain ⟨s, rfl, rfl⟩ := dropBytes?_eq_some_iff.mp _h
  have := Utf8.width_pos c
  rw [size_append, size_cons]
  omega

/-- The piece from `base` to `place` and the delimiters from there to `stop`. -/
def slicePiece? (o : WrapOptions) (line : List Char) (base place stop : Nat) : Option Piece :=
  if o.keepDelimiters then return ⟨← sliceBytes? base stop line, []⟩
  else return ⟨← sliceBytes? base place line, ← sliceBytes? place stop line⟩

namespace Cursor

/-- At the start of a line. -/
def start (o : WrapOptions) : Cursor where
  pos := 0
  lastCut := 0
  memory := ⟨o.delimiters.map fun _ => 0, 0⟩
  pieces := []

/-- After the character `c` has been read. -/
def advance (o : WrapOptions) (k : Cursor) (c : Char) : Cursor where
  pos := k.pos + Utf8.width c
  lastCut := k.lastCut
  memory := k.memory.note o c (k.pos + Utf8.width c)
  pieces := k.pieces
  le := Nat.le_add_right_of_le k.le

/-- After a piece has been cut off that ends at `stop`, where the character is read next. -/
def back (k : Cursor) (stop : Nat) (piece : Piece) : Cursor where
  pos := stop
  lastCut := stop
  memory := { k.memory with runStart := stop }
  pieces := piece :: k.pieces

/-- Where the line is cut if the width is reached with the character `c`. -/
def place (o : WrapOptions) (k : Cursor) (c : Char) : Nat :=
  cutAt o k.memory k.lastCut k.pos (k.pos - Utf8.width c)

/-- A turn of the loop: a character is read, and if the width is reached then, the line is cut, and
the loop goes back to the end of what was cut off. None if the line is sliced where it may not
be. -/
def turn? (o : WrapOptions) (line : List Char) (k : Cursor) : Option Turn :=
  match dropBytes? k.pos line with
  | none => none
  | some [] => some .stop
  | some (c :: _) =>
    let k := k.advance o c
    if k.pos - k.lastCut < o.width then some (.read k)
    else
      (passRun? o line k.lastCut (k.place o c)).bind fun stop =>
        (slicePiece? o line k.lastCut (k.place o c) stop).map fun piece =>
          .cut k.pos (k.place o c) (k.back stop piece)

/-- The bytes behind the last cut, and the bytes behind the position. -/
def left (line : List Char) (k : Cursor) : Nat × Nat :=
  (size line - k.lastCut, size line - k.pos)

end Cursor

/-! ## Every turn leaves less -/

section Left

variable {o : WrapOptions} {line t : List Char} {c : Char} {base i j : Nat}

theorem le_size_of_dropBytes? (h : dropBytes? i line = some t) : i + size t = size line := by
  obtain ⟨s, rfl, rfl⟩ := dropBytes?_eq_some_iff.mp h
  exact (size_append s t).symm

theorem passRun?_nil (h : dropBytes? i line = some []) : passRun? o line base i = some i := by
  rw [passRun?]
  split <;> simp_all

theorem passRun?_cons (h : dropBytes? i line = some (c :: t)) :
    passRun? o line base i =
      if c ∈ o.delimiters ∧ ¬ (o.keepDelimiters ∧ o.width < i + Utf8.width c - base) then
        passRun? o line base (i + Utf8.width c)
      else some i := by
  rw [passRun?]
  split
  · simp_all
  · simp_all
  · rename_i d u e
    obtain ⟨rfl, rfl⟩ := List.cons.inj (Option.some.inj (h.symm.trans e))
    by_cases hfull : o.keepDelimiters ∧ o.width < i + Utf8.width c - base <;> simp [hfull]

theorem of_passRun? (h : passRun? o line base i = some j) : i ≤ j ∧ j ≤ size line := by
  fun_induction passRun? o line base i with
  | case1 i hd => cases h
  | case2 i hd =>
    cases h
    exact ⟨Nat.le_refl _, (le_size_of_dropBytes? hd).le⟩
  | case3 i c t hd hfull =>
    cases h
    exact ⟨Nat.le_refl _, Nat.le.intro (le_size_of_dropBytes? hd)⟩
  | case4 i c t hd hfull hc ih =>
    obtain ⟨hle, hsize⟩ := ih h
    exact ⟨(Nat.le_add_right _ _).trans hle, hsize⟩
  | case5 i c t hd hfull hc =>
    cases h
    exact ⟨Nat.le_refl _, Nat.le.intro (le_size_of_dropBytes? hd)⟩

namespace Cursor

variable {k : Cursor}

/-- **What a turn can be**, whatever the cursor: it stops at the end of the line, it reads a
character, or it cuts. -/
theorem of_turn? {t : Turn} (h : k.turn? o line = some t) :
    (dropBytes? k.pos line = some [] ∧ t = .stop) ∨
      ∃ c tail, dropBytes? k.pos line = some (c :: tail) ∧
        let m := k.advance o c
        (m.pos - m.lastCut < o.width ∧ t = .read m ∨
          ¬ m.pos - m.lastCut < o.width ∧ ∃ stop piece,
            passRun? o line m.lastCut (m.place o c) = some stop ∧
            slicePiece? o line m.lastCut (m.place o c) stop = some piece ∧
            t = .cut m.pos (m.place o c) (m.back stop piece)) := by
  unfold turn? at h
  split at h
  · cases h
  · rename_i hd
    cases h
    exact .inl ⟨hd, rfl⟩
  · rename_i c tail hd
    refine .inr ⟨c, tail, hd, ?_⟩
    simp only at h ⊢
    split_ifs at h with hw
    · cases h
      exact .inl ⟨hw, rfl⟩
    · obtain ⟨stop, hs, h⟩ := Option.bind_eq_some_iff.mp h
      obtain ⟨piece, hp, rfl⟩ := Option.map_eq_some_iff.mp h
      exact .inr ⟨hw, stop, piece, hs, hp, rfl⟩

/-- **Every turn leaves less**: less behind the last cut, or as much there and less behind the
position. -/
theorem left_lt {t : Turn} {next : Cursor} (h : k.turn? o line = some t)
    (hn : t.next? = some next) :
    Prod.Lex (· < ·) (· < ·) (next.left line) (k.left line) := by
  rcases of_turn? h with ⟨-, rfl⟩ | ⟨c, tail, hd, ⟨-, rfl⟩ | ⟨-, stop, piece, hs, -, rfl⟩⟩
  · cases hn
  · cases hn
    have hc := Utf8.width_pos c
    have hsize := le_size_of_dropBytes? hd
    rw [size_cons] at hsize
    refine Prod.Lex.right _ ?_
    simp only [advance]
    omega
  · cases hn
    have hc := Utf8.width_pos c
    have hk := k.le
    have hcut : k.lastCut < (k.advance o c).place o c :=
      cutAt_lt (Nat.lt_of_le_of_lt hk (Nat.lt_add_of_pos_right hc))
    obtain ⟨hplace, hstop⟩ := of_passRun? hs
    refine Prod.Lex.left _ _ ?_
    simp only [back]
    omega

/-- The pieces that the loop ends with; none if the line is sliced where it may not be. -/
def run? (o : WrapOptions) (line : List Char) (k : Cursor) : Option (List Piece) :=
  match _h : k.turn? o line with
  | none => none
  | some .stop =>
    if k.lastCut < k.pos ∨ k.pos = 0 then
      (sliceBytes? k.lastCut k.pos line).map fun text => (⟨text, []⟩ :: k.pieces).reverse
    else some k.pieces.reverse
  | some (.read next) => next.run? o line
  | some (.cut _ _ next) => next.run? o line
termination_by k.left line
decreasing_by all_goals exact left_lt _h rfl

end Cursor

end Left

/-! ## What is known of a cursor -/

section Stands

variable {o : WrapOptions} {line behind seen ahead : List Char} {k : Cursor}

/-- The line was cut last behind `behind`; `seen` has been read since then without reaching the
width, and `ahead` is to be read. Of the characters in `seen` the memory knows what it should, and
where it still knows others, it will be renewed before the next cut. -/
structure Stands (o : WrapOptions) (line behind seen ahead : List Char) (k : Cursor) : Prop where
  line_eq : line = behind ++ (seen ++ ahead)
  lastCut : k.lastCut = size behind
  pos : k.pos = size behind + size seen
  short : ∀ v, v <+: seen → v ≠ [] → size v < o.width
  memory : ∃ m, Ready o (size behind) m (seen ++ ahead) ∧ Reads o (size behind) m seen k.memory

theorem stands_start (o : WrapOptions) (line : List Char) :
    Stands o line [] [] line (.start o) where
  line_eq := rfl
  lastCut := rfl
  pos := rfl
  short _ hv hne := absurd (List.prefix_nil.mp hv) hne
  memory := ⟨(Cursor.start o).memory, ready_start o line, reads_nil (List.length_map _) rfl⟩

theorem Stands.dropBytes? (h : Stands o line behind seen ahead k) :
    dropBytes? k.pos line = some ahead :=
  dropBytes?_eq_some_iff.mpr ⟨behind ++ seen, by rw [h.line_eq, List.append_assoc],
    by rw [size_append, h.pos]⟩

theorem passRun?_eq (behind body tail : List Char) :
    passRun? o (behind ++ body ++ tail) (size behind) (size (behind ++ body)) =
      some (size (behind ++ body ++ taken o (size body) tail)) := by
  have habsorb : (absorb o (size body) tail).1 = taken o (size body) tail := by rw [absorb_eq]
  rw [← habsorb]
  clear habsorb
  induction tail generalizing body with
  | nil =>
    rw [passRun?_nil (dropBytes?_append _ [])]
    simp [absorb]
  | cons c tail ih =>
    rw [passRun?_cons (dropBytes?_append _ (c :: tail)), absorb]
    have hused : size (behind ++ body) + Utf8.width c - size behind = size body + Utf8.width c := by
      rw [size_append]
      omega
    rw [hused]
    split_ifs with hc
    · have ih := ih (body ++ [c])
      rw [← size_concat, ← size_concat]
      simpa only [List.append_assoc, List.singleton_append] using ih
    · rw [List.append_nil]

theorem slicePiece?_eq (behind body run rest : List Char) :
    slicePiece? o (behind ++ body ++ run ++ rest) (size behind) (size (behind ++ body))
      (size (behind ++ body ++ run)) = some (pieceOf o body run) := by
  have hbody := sliceBytes?_append behind body (run ++ rest)
  have hrun := sliceBytes?_append (behind ++ body) run rest
  have hboth := sliceBytes?_append behind (body ++ run) rest
  rw [slicePiece?, pieceOf]
  simp only [List.append_assoc] at hbody hrun hboth ⊢
  rw [hbody, hrun, hboth]
  split_ifs <;> rfl

theorem size_strictMono {s t : List Char} (h : s <+: t) (hne : s ≠ t) : size s < size t := by
  obtain ⟨r, rfl⟩ := h
  rw [size_append]
  exact Nat.lt_add_of_pos_right (size_pos fun hr => hne (by rw [hr, List.append_nil]))

/-- The memory cuts nowhere but where something starts that has been read. -/
theorem Reads.start_before {base p : Nat} {m₀ m : Memory} {w : List Char} (h : Reads o base m₀ w m)
    (hm₀ : ∀ i p, m₀.starts[i]? = some p → base < p → ∃ d ∈ w, o.delimiters.idxOf? d = some i)
    (hp : p ∈ m.starts) (hlt : base < p) : ∃ v, v <+: w ∧ v ≠ w ∧ p = base + size v := by
  obtain ⟨i, hi⟩ := List.getElem?_of_mem hp
  obtain ⟨d, -, hd, rfl⟩ := h.start_cases hm₀ hi hlt
  have hdel : d ∈ o.delimiters := List.mem_of_getElem? (getElem?_of_idxOf? hd)
  refine ⟨upTo o w d, prefix_upTo o w d, upTo_ne_self hdel fun hnil => ?_, rfl⟩
  rw [hnil] at hlt
  exact Nat.lt_irrefl base hlt

section Advance

variable {c : Char} {tail : List Char}

theorem Stands.advance (h : Stands o line behind seen (c :: tail) k) :
    (k.advance o c).lastCut = size behind ∧
      (k.advance o c).pos = size behind + size (seen ++ [c]) ∧
      ∃ m, Ready o (size behind) m (seen ++ c :: tail) ∧
        Reads o (size behind) m (seen ++ [c]) (k.advance o c).memory := by
  obtain ⟨m, hready, hreads⟩ := h.memory
  have hpos : k.pos + Utf8.width c = size behind + size (seen ++ [c]) := by
    rw [h.pos, size_concat, Nat.add_assoc]
  have hnote := hreads.note c
  rw [← hpos] at hnote
  exact ⟨h.lastCut, hpos, m, hready, hnote⟩

/-- What has been read when the width is reached is the window. -/
theorem Stands.window?_eq (h : Stands o line behind seen (c :: tail) k)
    (hw : ¬ size (seen ++ [c]) < o.width) : window? o (seen ++ c :: tail) = some (seen ++ [c]) := by
  have hpre : seen ++ [c] <+: seen ++ c :: tail := ⟨tail, (List.append_cons seen c tail).symm⟩
  refine window?_eq_some hpre (by simp) (Nat.le_of_not_lt hw) fun v hv hne hsize => ?_
  rcases List.prefix_or_prefix_of_prefix hpre hv with hv | hv
  · exact hv
  · rcases List.prefix_concat_iff.mp hv with rfl | hv
    · exact List.prefix_refl _
    · exact absurd (h.short v hv hne) (Nat.not_lt.mpr hsize)

theorem Stands.place_eq (h : Stands o line behind seen (c :: tail) k)
    (hw : ¬ size (seen ++ [c]) < o.width) :
    (k.advance o c).place o c = size (behind ++ cut o (seen ++ [c])) := by
  obtain ⟨hlast, hpos, m, hready, hreads⟩ := h.advance
  have hbefore : size behind + size (seen ++ [c]) - Utf8.width c = size behind + size seen := by
    rw [size_concat, ← Nat.add_assoc, Nat.add_sub_cancel]
  rw [Cursor.place, hlast, hpos, hbefore, hreads.cutAt_eq (hready.renewed _ (h.window?_eq hw)),
    size_append]

/-- After a cut, the memory is ready for what follows it. -/
theorem Stands.back (h : Stands o line behind seen (c :: tail) k)
    (hw : ¬ size (seen ++ [c]) < o.width) {off rest : List Char} (hoff : off ≠ [])
    (hsplit : seen ++ c :: tail = off ++ rest) (piece : Piece) :
    Stands o line (behind ++ off) [] rest ((k.advance o c).back (size (behind ++ off)) piece) where
  line_eq := by rw [h.line_eq, hsplit, List.nil_append, List.append_assoc]
  lastCut := rfl
  pos := rfl
  short _ hv hne := absurd (List.prefix_nil.mp hv) hne
  memory := by
    obtain ⟨-, -, m, hready, hreads⟩ := h.advance
    have hwin := h.window?_eq hw
    have hrenewed := hready.renewed _ hwin
    refine ⟨((k.advance o c).back (size (behind ++ off)) piece).memory,
      ⟨hreads.length, rfl, fun w' hw' i p hp hlt => ?_⟩, reads_nil hreads.length rfl⟩
    rw [hsplit] at hwin
    rw [size_append] at hlt
    exact hreads.renewed hrenewed hwin hoff hw' hp hlt

theorem Stands.start_before (h : Stands o line behind seen (c :: tail) k)
    (hw : ¬ size (seen ++ [c]) < o.width) {p : Nat} (hp : p ∈ (k.advance o c).memory.starts)
    (hlt : k.lastCut < p) : Boundary line p ∧ p < (k.advance o c).pos := by
  obtain ⟨-, hpos, m, hready, hreads⟩ := h.advance
  have hwin := h.window?_eq hw
  rw [h.lastCut] at hlt
  obtain ⟨v, hv, hne, rfl⟩ := hreads.start_before (hready.renewed _ hwin) hp hlt
  rw [hpos]
  refine ⟨⟨behind ++ v, ?_, size_append behind v⟩,
    Nat.add_lt_add_left (size_strictMono hv hne) (size behind)⟩
  rw [h.line_eq]
  exact (List.prefix_append_right_inj behind).mpr (hv.trans (of_window? hwin).1)

theorem Stands.turn?_cut (h : Stands o line behind seen (c :: tail) k)
    (hw : ¬ size (seen ++ [c]) < o.width) :
    ∃ body run rest, body ≠ [] ∧ seen ++ c :: tail = body ++ run ++ rest ∧
      firstPiece? o (seen ++ c :: tail) = some (pieceOf o body run, rest) ∧
      k.turn? o line = some (.cut (k.advance o c).pos (size (behind ++ body))
        ((k.advance o c).back (size (behind ++ body ++ run)) (pieceOf o body run))) := by
  have hdrop := h.dropBytes?
  have hwin := h.window?_eq hw
  have hplace := h.place_eq hw
  obtain ⟨hlast, hpos, -⟩ := h.advance
  obtain ⟨after, hafter⟩ := (prefix_cut o (seen ++ [c])).trans (of_window? hwin).1
  have hbody : cut o (seen ++ [c]) ≠ [] := cut_ne_nil (of_window? hwin).2.1
  generalize hb : cut o (seen ++ [c]) = body at hplace hbody hafter
  have hline : line = behind ++ body ++ after := by
    rw [h.line_eq, ← hafter, List.append_assoc]
  have hpass : passRun? o line (size behind) (size (behind ++ body)) =
      some (size (behind ++ body ++ taken o (size body) after)) := by
    rw [hline]
    exact passRun?_eq behind body after
  have hrest := (taken_append o (size body) after).symm
  have hslice : slicePiece? o line (size behind) (size (behind ++ body))
      (size (behind ++ body ++ taken o (size body) after)) =
        some (pieceOf o body (taken o (size body) after)) := by
    rw [hline]
    nth_rewrite 1 [hrest]
    rw [← List.append_assoc]
    exact slicePiece?_eq behind body _ _
  refine ⟨body, taken o (size body) after, after.drop (taken o (size body) after).length, hbody, ?_,
    ?_, ?_⟩
  · rw [List.append_assoc, ← hrest, hafter]
  · rw [← hafter] at hwin ⊢
    exact firstPiece?_eq hwin hb
  · simp only [Cursor.turn?, hdrop, hlast, hpos, Nat.add_sub_cancel_left, if_neg hw, hplace, hpass,
      hslice, Option.bind_some, Option.map_some]

end Advance

/-- **A turn keeps what is known**: it stops at the end of the line; or another character is seen;
or the first piece of what follows the last cut is cut off, and the memory would not cut behind the
position or within a character. -/
theorem Stands.turn_cases (h : Stands o line behind seen ahead k) :
    (ahead = [] ∧ k.turn? o line = some .stop) ∨
      (∃ c tail next, ahead = c :: tail ∧ k.turn? o line = some (.read next) ∧
        Stands o line behind (seen ++ [c]) tail next ∧ next.pieces = k.pieces) ∨
      ∃ pos body run rest piece next, body ≠ [] ∧ seen ++ ahead = body ++ run ++ rest ∧
        firstPiece? o (seen ++ ahead) = some (piece, rest) ∧
        k.turn? o line = some (.cut pos (size (behind ++ body)) next) ∧
        Stands o line (behind ++ (body ++ run)) [] rest next ∧ next.pieces = piece :: k.pieces ∧
        ∀ p ∈ next.memory.starts, k.lastCut < p → Boundary line p ∧ p < pos := by
  cases ahead with
  | nil => exact .inl ⟨rfl, by rw [Cursor.turn?, h.dropBytes?]⟩
  | cons c tail =>
    right
    obtain ⟨hlast, hpos, m, hready, hreads⟩ := h.advance
    have hsplit : seen ++ c :: tail = seen ++ [c] ++ tail := List.append_cons seen c tail
    by_cases hw : size (seen ++ [c]) < o.width
    · refine .inl ⟨c, tail, k.advance o c, rfl, ?_,
        ⟨?_, hlast, hpos, fun v hv _ => ?_, m, ?_, hreads⟩, rfl⟩
      · simp only [Cursor.turn?, h.dropBytes?, hlast, hpos, Nat.add_sub_cancel_left, if_pos hw]
      · rw [h.line_eq, hsplit]
      · exact Nat.lt_of_le_of_lt (size_mono hv) hw
      · rwa [← hsplit]
    · obtain ⟨body, run, rest, hbody, hoff, hfirst, hturn⟩ := h.turn?_cut hw
      have hnext :=
        h.back hw (List.append_ne_nil_of_left_ne_nil hbody run) hoff (pieceOf o body run)
      rw [List.append_assoc] at hturn
      exact .inr ⟨_, body, run, rest, _, _, hbody, hoff, hfirst, hturn, hnext, rfl,
        fun p hp hlt => h.start_before hw hp hlt⟩

/-! ## The run -/

theorem Cursor.run?_of_next? {t : Turn} {next : Cursor} (h : k.turn? o line = some t)
    (hn : t.next? = some next) : k.run? o line = next.run? o line := by
  cases t with
  | stop => cases hn
  | read =>
    cases hn
    rw [Cursor.run?]
    split <;> simp_all
  | cut =>
    cases hn
    rw [Cursor.run?]
    split <;> simp_all

theorem Cursor.run?_of_stop (h : k.turn? o line = some .stop) :
    k.run? o line = if k.lastCut < k.pos ∨ k.pos = 0 then
      (sliceBytes? k.lastCut k.pos line).map fun text => (⟨text, []⟩ :: k.pieces).reverse
    else some k.pieces.reverse := by
  rw [Cursor.run?]
  split <;> simp_all

/-- **The run ends with the pieces** that it had and those of what follows the last cut. -/
theorem Stands.run?_eq {behind seen ahead : List Char} {k : Cursor}
    (h : Stands o line behind seen ahead k) :
    k.run? o line = some (k.pieces.reverse ++
      if line = [] then [⟨[], []⟩] else greedy o (seen ++ ahead)) := by
  rcases h.turn_cases with ⟨rfl, ht⟩ | ⟨c, tail, next, rfl, ht, hnext, hp⟩ |
    ⟨pos, body, run, rest, piece, next, hbody, hoff, hfirst, ht, hnext, hp, -⟩
  · have hline : line = behind ++ seen ++ [] := by rw [h.line_eq, List.append_assoc]
    have hslice : sliceBytes? k.lastCut k.pos line = some seen := by
      rw [h.lastCut, h.pos, ← size_append, hline]
      exact sliceBytes?_append behind seen []
    have hnone : firstPiece? o seen = none := by
      rw [firstPiece?, window?_eq_none_iff.mpr h.short, Option.map_none]
    have hcut : k.lastCut < k.pos ↔ seen ≠ [] := by
      rw [h.lastCut, h.pos, Nat.lt_add_right_iff_pos, Nat.pos_iff_ne_zero, Ne, size_eq_zero_iff]
    have hpos : k.pos = 0 ↔ line = [] := by
      rw [h.pos, ← size_append, size_eq_zero_iff, hline, List.append_nil]
    rw [Cursor.run?_of_stop ht, hslice, List.append_nil, greedy_of_none hnone]
    simp only [hcut, hpos]
    by_cases hl : line = []
    · have hs : seen = [] := by
        rw [hl, List.append_nil] at hline
        exact (List.append_eq_nil_iff.mp hline.symm).2
      simp [hs, hl]
    · by_cases hs : seen = [] <;> simp [hs, hl]
  · rw [Cursor.run?_of_next? ht rfl, Stands.run?_eq hnext, hp, List.append_assoc,
      List.singleton_append]
  · have hl : line ≠ [] := by
      rw [h.line_eq, hoff]
      simp [hbody]
    rw [Cursor.run?_of_next? ht rfl, Stands.run?_eq hnext, hp, if_neg hl, if_neg hl,
      greedy_of_some hfirst, List.reverse_cons, List.append_assoc]
    rfl
termination_by k.left line
decreasing_by all_goals exact Cursor.left_lt ht rfl

end Stands

/-- The cursors that the loop comes to. -/
inductive Reached (o : WrapOptions) (line : List Char) : Cursor → Prop
  | start : Reached o line (.start o)
  | turn {k next : Cursor} {t : Turn} (hk : Reached o line k) (ht : k.turn? o line = some t)
    (hn : t.next? = some next) : Reached o line next

section Safe

variable {o : WrapOptions} {line : List Char} {k : Cursor}

theorem Reached.stands (h : Reached o line k) :
    ∃ behind seen ahead, Stands o line behind seen ahead k := by
  induction h with
  | start => exact ⟨[], [], line, stands_start o line⟩
  | @turn k next t _ ht hn ih =>
    obtain ⟨behind, seen, ahead, h⟩ := ih
    rcases h.turn_cases with ⟨-, ht'⟩ | ⟨c, tail, next', -, ht', hnext, -⟩ |
      ⟨pos, body, run, rest, piece, next', -, -, -, ht', hnext, -⟩ <;>
      obtain rfl := Option.some.inj (ht.symm.trans ht') <;> cases hn
    · exact ⟨_, _, _, hnext⟩
    · exact ⟨_, _, _, hnext⟩

theorem length_greedy_le (o : WrapOptions) (text : List Char) :
    (greedy o text).length ≤ text.length := by
  induction text using greedy.induct o with
  | case1 hf =>
    rw [greedy_nil]
    exact Nat.zero_le _
  | case2 text hf hnil =>
    rw [greedy_of_none hf, if_neg hnil]
    exact List.length_pos_iff.mpr hnil
  | case3 text piece rest hf ih =>
    rw [greedy_of_some hf]
    exact Nat.succ_le_of_lt (Nat.lt_of_le_of_lt ih (length_lt_of_firstPiece? hf))

/-- What is true of a cut: the line, which was cut last at `k.lastCut`, is cut at `place` when it is
read up to `pos`. -/
structure CutsWell (line : List Char) (k : Cursor) (pos place : Nat) (next : Cursor) : Prop where
  forward : k.lastCut < place ∧ place ≤ next.lastCut ∧ next.lastCut ≤ size line
  boundaries : Boundary line k.lastCut ∧ Boundary line place ∧ Boundary line next.lastCut
  /-- A place that the memory would cut at lies before the position. -/
  remembered : ∀ p ∈ next.memory.starts, k.lastCut < p → Boundary line p ∧ p < pos
  /-- The next character is read at the end of what was cut off. -/
  back : next.pos = next.lastCut

theorem Stands.cutsWell {behind seen ahead body run rest : List Char} {next : Cursor} {pos : Nat}
    (h : Stands o line behind seen ahead k) (hbody : body ≠ [])
    (hoff : seen ++ ahead = body ++ run ++ rest)
    (hnext : Stands o line (behind ++ (body ++ run)) [] rest next)
    (hstarts : ∀ p ∈ next.memory.starts, k.lastCut < p → Boundary line p ∧ p < pos) :
    CutsWell line k pos (size (behind ++ body)) next := by
  have hline : line = behind ++ body ++ run ++ rest := by
    rw [h.line_eq, hoff]
    simp only [List.append_assoc]
  have hlast : next.lastCut = size (behind ++ body ++ run) := by
    rw [hnext.lastCut, List.append_assoc]
  have hpos : 0 < size body := size_pos hbody
  refine ⟨?_, ?_, hstarts, hnext.pos.trans hnext.lastCut.symm⟩
  · rw [hlast, h.lastCut, hline]
    simp only [size_append]
    omega
  · rw [hlast, h.lastCut, hline]
    refine ⟨?_, ?_, boundary_append _ rest⟩
    · simp only [List.append_assoc]
      exact boundary_append behind _
    · rw [List.append_assoc]
      exact boundary_append _ (run ++ rest)

/-- **The loop ends and slices only where it may**, for any line and any options.

* No turn that the loop comes to lacks a slice, and each leaves less than there was. A cut is made
  behind the last one and in the line, between boundaries, and what the memory may cut at lies
  before the position.
* The loop ends with the pieces of the line.
* These are at most as many as the line has characters; the empty line is one piece. -/
theorem cursor_safe (o : WrapOptions) (line : List Char) :
    (∀ k, Reached o line k → ∃ t, k.turn? o line = some t ∧
      (∀ next, t.next? = some next →
        Prod.Lex (· < ·) (· < ·) (next.left line) (k.left line)) ∧
      ∀ pos place next, t = .cut pos place next → CutsWell line k pos place next) ∧
    (Cursor.start o).run? o line = some (wrap o line) ∧
    (wrap o line).length ≤ if line = [] then 1 else line.length := by
  refine ⟨fun k hk => ?_, ?_, ?_⟩
  · obtain ⟨behind, seen, ahead, h⟩ := hk.stands
    rcases h.turn_cases with ⟨-, ht⟩ | ⟨c, tail, next, -, ht, -⟩ |
      ⟨pos, body, run, rest, piece, next, hbody, hoff, -, ht, hnext, -, hstarts⟩
    · exact ⟨_, ht, fun _ hn => Cursor.left_lt ht hn, fun _ _ _ he => by cases he⟩
    · exact ⟨_, ht, fun _ hn => Cursor.left_lt ht hn, fun _ _ _ he => by cases he⟩
    · refine ⟨_, ht, fun _ hn => Cursor.left_lt ht hn, fun _ _ _ he => ?_⟩
      cases he
      exact h.cutsWell hbody hoff hnext hstarts
  · rw [(stands_start o line).run?_eq]
    by_cases hline : line = []
    · rw [hline]
      rfl
    · rw [if_neg hline, wrap_of_ne_nil hline]
      rfl
  · split_ifs with hline
    · rw [hline]
      exact Nat.le_refl 1
    · rw [wrap_of_ne_nil hline]
      exact length_greedy_le o line

end Safe

end Coprocess.Wrap
