import Coprocess.Proofs.Wrap.Text
import Mathlib.Data.List.DropRight
import Mathlib.Data.List.Infix

/-!
# Wrapping without memory

Where a line is cut next depends on the rest of the line alone, although the scan remembers
delimiters that it met before the last cut.

* `Wrap.window?`: the characters that are looked at, as many as reach the width;
* `Wrap.upTo`: what stands in them before the run of delimiters that holds the last of one
  delimiter;
* `Wrap.cut`, `Wrap.taken`: where a window is cut, and the delimiters that go with the piece;
* `Wrap.firstPiece?`, `Wrap.greedy`: the first piece of a text, and all of them;
* `Wrap.Reads`, `Wrap.Ready`: what the memory knows of the characters read, and what is left in it
  from before the last cut;
* `Wrap.ready_start`, `Wrap.wrap_of_ne_nil`, **`wrap_eq_greedy`**: lines are wrapped in this way.
-/

namespace Coprocess

theorem Utf8.width_pos (c : Char) : 0 < Utf8.width c := by
  unfold Utf8.width Utf8.encodeChar
  simp only
  split_ifs <;> simp

namespace Wrap

/-! ## The pieces of a text -/

/-- The number of bytes of a text. -/
def size (text : List Char) : Nat := (Utf8.encode text).length

/-- The shortest start of the text that is not empty and reaches the width. -/
def window? (o : WrapOptions) (text : List Char) : Option (List Char) :=
  text.inits.find? fun w => w ≠ [] ∧ o.width ≤ size w

/-- What stands before the run of delimiters that holds the last `d`; nothing if there is no `d`. -/
def upTo (o : WrapOptions) (w : List Char) (d : Char) : List Char :=
  (w.rdropWhile (· ≠ d)).rdropWhile (· ∈ o.delimiters)

/-- The window, without its last character if that goes beyond the width and is not alone. -/
def hardCut (o : WrapOptions) (w : List Char) : List Char :=
  if o.width < size w ∧ w.dropLast ≠ [] then w.dropLast else w

/-- What is cut off of a window: all before the run of the most preferred delimiter whose run does
not begin the window, or else as much as the width allows. -/
def cut (o : WrapOptions) (w : List Char) : List Char :=
  ((o.delimiters.map (upTo o w)).find? (· ≠ [])).getD (hardCut o w)

/-- As many characters as have room in `n` bytes. -/
def fitting : Nat → List Char → List Char
  | _, [] => []
  | n, c :: cs => if Utf8.width c ≤ n then c :: fitting (n - Utf8.width c) cs else []

/-- The delimiters at the start of `tail` that go with a piece of `used` bytes: all of them, or, if
they belong to its text, as many as have room beside it. -/
def taken (o : WrapOptions) (used : Nat) (tail : List Char) : List Char :=
  let run := tail.takeWhile (· ∈ o.delimiters)
  if o.keepDelimiters then fitting (o.width - used) run else run

/-- A piece with the delimiters that go with it. -/
def pieceOf (o : WrapOptions) (body run : List Char) : Piece :=
  if o.keepDelimiters then ⟨body ++ run, []⟩ else ⟨body, run⟩

/-- The first piece of a text and what follows it; `none` if the text does not reach the width. -/
def firstPiece? (o : WrapOptions) (text : List Char) : Option (Piece × List Char) :=
  (window? o text).map fun w =>
    let body := cut o w
    let tail := text.drop body.length
    let run := taken o (size body) tail
    (pieceOf o body run, tail.drop run.length)

/-! ### Sizes -/

theorem size_append (s t : List Char) : size (s ++ t) = size s + size t := by
  simp [size, Utf8.encode]

theorem size_cons (c : Char) (s : List Char) : size (c :: s) = Utf8.width c + size s := by
  simp [size, Utf8.encode, Utf8.width]

theorem size_pos {s : List Char} (h : s ≠ []) : 0 < size s := by
  cases s with
  | nil => exact absurd rfl h
  | cons c s =>
    rw [size_cons]
    exact Nat.add_pos_left (Utf8.width_pos c) _

theorem size_eq_zero_iff {s : List Char} : size s = 0 ↔ s = [] := by
  constructor
  · intro h
    by_contra hne
    exact absurd h (Nat.ne_of_gt (size_pos hne))
  · rintro rfl
    rfl

theorem size_mono {s t : List Char} (h : s <+: t) : size s ≤ size t := by
  obtain ⟨r, rfl⟩ := h
  rw [size_append]
  exact Nat.le_add_right _ _

theorem prefix_of_size_lt {s t text : List Char} (hs : s <+: text) (ht : t <+: text)
    (h : size s < size t) : s <+: t := by
  rcases List.prefix_or_prefix_of_prefix hs ht with h' | h'
  · exact h'
  · exact absurd (size_mono h') (Nat.not_le.mpr h)

/-! ### Windows -/

section Window

variable {o : WrapOptions} {text w : List Char}

theorem window?_eq_none_iff :
    window? o text = none ↔ ∀ v, v <+: text → v ≠ [] → size v < o.width := by
  simp only [window?, List.find?_eq_none, List.mem_inits, decide_eq_true_eq, not_and, Nat.not_le]

/-- A window is the shortest start of the text that reaches the width. -/
theorem of_window? (h : window? o text = some w) :
    w <+: text ∧ w ≠ [] ∧ o.width ≤ size w ∧
      ∀ v, v <+: text → v ≠ [] → o.width ≤ size v → w <+: v := by
  obtain ⟨hw, i, hi, rfl, hmin⟩ := List.find?_eq_some_iff_getElem.mp h
  rw [decide_eq_true_eq, List.getElem_inits] at hw
  rw [List.getElem_inits]
  refine ⟨List.take_prefix _ _, hw.1, hw.2, fun v hv hne hsize => ?_⟩
  rcases Nat.lt_or_ge v.length i with hlt | hge
  · -- A shorter start would have been found before.
    have hfail := hmin v.length hlt
    rw [List.getElem_inits, ← List.prefix_iff_eq_take.mp hv] at hfail
    simp only [Bool.not_eq_true', decide_eq_false_iff_not] at hfail
    exact absurd ⟨hne, hsize⟩ hfail
  · rw [List.prefix_iff_eq_take.mp hv]
    exact List.take_prefix_take_left hge

theorem window?_eq_some (hw : w <+: text) (hne : w ≠ []) (hsize : o.width ≤ size w)
    (hmin : ∀ v, v <+: text → v ≠ [] → o.width ≤ size v → w <+: v) :
    window? o text = some w := by
  cases h : window? o text with
  | none => exact absurd (window?_eq_none_iff.mp h w hw hne) (Nat.not_lt.mpr hsize)
  | some v =>
    obtain ⟨hv, hvne, hvsize, hvmin⟩ := of_window? h
    rw [(hvmin w hw hne hsize).eq_of_length_le (hmin v hv hvne hvsize).length_le]

end Window

/-! ### Cuts -/

section Cut

variable {o : WrapOptions} {text w : List Char}

theorem prefix_upTo (o : WrapOptions) (w : List Char) (d : Char) : upTo o w d <+: w :=
  (List.rdropWhile_prefix _ _).trans (List.rdropWhile_prefix _ _)

theorem prefix_hardCut (o : WrapOptions) (w : List Char) : hardCut o w <+: w := by
  unfold hardCut
  split_ifs
  · exact List.dropLast_prefix w
  · exact List.prefix_refl w

theorem hardCut_ne_nil (hw : w ≠ []) : hardCut o w ≠ [] := by
  unfold hardCut
  split_ifs with h
  · exact h.2
  · exact hw

theorem cut_cases (o : WrapOptions) (w : List Char) :
    (∃ d ∈ o.delimiters, upTo o w d ≠ [] ∧ cut o w = upTo o w d) ∨
      (∀ d ∈ o.delimiters, upTo o w d = []) ∧ cut o w = hardCut o w := by
  unfold cut
  cases h : (o.delimiters.map (upTo o w)).find? (· ≠ []) with
  | some c =>
    obtain ⟨d, hd, rfl⟩ := List.mem_map.mp (List.mem_of_find?_eq_some h)
    exact .inl ⟨d, hd, by simpa using List.find?_some h, rfl⟩
  | none =>
    rw [List.find?_eq_none] at h
    exact .inr ⟨fun d hd => by simpa using h _ (List.mem_map_of_mem hd), rfl⟩

theorem prefix_cut (o : WrapOptions) (w : List Char) : cut o w <+: w := by
  rcases cut_cases o w with ⟨d, -, -, h⟩ | ⟨-, h⟩ <;> rw [h]
  · exact prefix_upTo o w d
  · exact prefix_hardCut o w

theorem cut_ne_nil (hw : w ≠ []) : cut o w ≠ [] := by
  rcases cut_cases o w with ⟨d, -, hd, h⟩ | ⟨-, h⟩ <;> rw [h]
  · exact hd
  · exact hardCut_ne_nil hw

theorem length_lt_of_firstPiece? {piece : Piece} {rest : List Char}
    (h : firstPiece? o text = some (piece, rest)) : rest.length < text.length := by
  obtain ⟨w, hw, h⟩ := Option.map_eq_some_iff.mp h
  obtain ⟨hpre, hne, -, -⟩ := of_window? hw
  simp only [Prod.mk.injEq] at h
  have hcut := List.length_pos_iff.mpr (cut_ne_nil (o := o) hne)
  have htext := List.length_pos_iff.mpr (hpre.ne_nil hne)
  rw [← h.2, List.length_drop, List.length_drop]
  omega

end Cut

/-- The pieces of a text, each of which is the first piece of what the pieces before it left. -/
def greedy (o : WrapOptions) (text : List Char) : List Piece :=
  match _h : firstPiece? o text with
  | none => if text = [] then [] else [⟨text, []⟩]
  | some (piece, rest) => piece :: greedy o rest
termination_by text.length
decreasing_by exact length_lt_of_firstPiece? _h

/-! ## The memory of the scan -/

section Memory

variable {o : WrapOptions} {base : Nat} {m m₀ : Memory} {seen w : List Char}

theorem getElem?_of_idxOf? {l : List Char} {d : Char} {i : Nat} (h : l.idxOf? d = some i) :
    l[i]? = some d := by
  obtain ⟨hi, hd, -⟩ := List.idxOf?_eq_some_iff.mp h
  rw [List.getElem?_eq_getElem hi, hd]

theorem upTo_concat_of_ne {c d : Char} (h : c ≠ d) (w : List Char) :
    upTo o (w ++ [c]) d = upTo o w d := by
  rw [upTo, List.rdropWhile_concat_pos _ _ _ (by simpa using h), upTo]

theorem upTo_concat_self {d : Char} (h : d ∈ o.delimiters) (w : List Char) :
    upTo o (w ++ [d]) d = w.rdropWhile (· ∈ o.delimiters) := by
  rw [upTo, List.rdropWhile_concat_neg _ _ _ (by simp),
    List.rdropWhile_concat_pos _ _ _ (by simpa using h)]

theorem upTo_eq_nil_of_not_mem {d : Char} (h : d ∉ w) : upTo o w d = [] := by
  have hall : w.rdropWhile (· ≠ d) = [] :=
    List.rdropWhile_eq_nil_iff.mpr fun c hc => decide_eq_true fun e : c = d => h (e ▸ hc)
  rw [upTo, hall]
  rfl

/-- What the memory knows when the characters `seen` behind `base` were read, and what it held
before was `m₀`: where the run that ends `seen` started, and for each delimiter in `seen` where the
run started that holds the last of them. -/
structure Reads (o : WrapOptions) (base : Nat) (m₀ : Memory) (seen : List Char) (m : Memory) :
    Prop where
  length : m.starts.length = o.delimiters.length
  runStart : m.runStart = base + size (seen.rdropWhile (· ∈ o.delimiters))
  met : ∀ d ∈ seen, ∀ i, o.delimiters.idxOf? d = some i →
    m.starts[i]? = some (base + size (upTo o seen d))
  kept : ∀ i, (∀ d ∈ seen, o.delimiters.idxOf? d ≠ some i) → m.starts[i]? = m₀.starts[i]?

theorem reads_nil (hlen : m.starts.length = o.delimiters.length) (h : m.runStart = base) :
    Reads o base m [] m where
  length := hlen
  runStart := by rw [h]; rfl
  met _ hd := absurd hd List.not_mem_nil
  kept _ _ := rfl

theorem Reads.note (h : Reads o base m₀ seen m) (c : Char) :
    Reads o base m₀ (seen ++ [c]) (m.note o c (base + size (seen ++ [c]))) := by
  have other {d : Char} (hd : d ∈ seen ++ [c]) (hne : c ≠ d) : d ∈ seen :=
    (List.mem_append.mp hd).resolve_right fun h => hne (List.mem_singleton.mp h).symm
  unfold Memory.note
  cases hc : o.delimiters.idxOf? c with
  | none =>
    have hmem : c ∉ o.delimiters := List.idxOf?_eq_none_iff.mp hc
    refine ⟨h.length, ?_, fun d hd i hi => ?_, fun i hi => ?_⟩
    · rw [List.rdropWhile_concat_neg _ _ _ (by simpa using hmem)]
    · have hne : c ≠ d := by
        rintro rfl
        rw [hc] at hi
        cases hi
      rw [upTo_concat_of_ne hne]
      exact h.met d (other hd hne) i hi
    · exact h.kept i fun d hd => hi d (List.mem_append_left _ hd)
  | some j =>
    have hj := getElem?_of_idxOf? hc
    have hmem : c ∈ o.delimiters := List.mem_of_getElem? hj
    have hlt : j < m.starts.length := by
      rw [h.length]
      exact (List.getElem?_eq_some_iff.mp hj).1
    refine ⟨by simp [h.length], ?_, fun d hd i hi => ?_, fun i hi => ?_⟩
    · rw [List.rdropWhile_concat_pos _ _ _ (by simpa using hmem)]
      exact h.runStart
    · by_cases hne : c = d
      · subst hne
        obtain rfl : j = i := Option.some.inj (hc.symm.trans hi)
        rw [List.getElem?_set_self hlt, upTo_concat_self hmem, h.runStart]
      · have hij : j ≠ i := by
          rintro rfl
          exact hne (Option.some.inj (hj.symm.trans (getElem?_of_idxOf? hi)))
        rw [List.getElem?_set_ne hij, upTo_concat_of_ne hne]
        exact h.met d (other hd hne) i hi
    · have hij : j ≠ i := fun e => hi c (List.mem_concat_self ..) (e ▸ hc)
      rw [List.getElem?_set_ne hij]
      exact h.kept i fun d hd => hi d (List.mem_append_left _ hd)

/-- **What the scan reads is the window**, or there is none. -/
theorem scan_cases (hseen : ∀ v, v <+: seen → v ≠ [] → size v < o.width)
    (hm : Reads o base m₀ seen m) (cs : List Char) :
    (scan o base (base + size seen) m cs = none ∧ window? o (seen ++ cs) = none) ∨
      ∃ w c m', window? o (seen ++ cs) = some (w ++ [c]) ∧ Reads o base m₀ (w ++ [c]) m' ∧
        scan o base (base + size seen) m cs =
          some (m', base + size (w ++ [c]), base + size w) := by
  induction cs generalizing seen m with
  | nil =>
    rw [List.append_nil]
    exact .inl ⟨rfl, window?_eq_none_iff.mpr hseen⟩
  | cons c cs ih =>
    have hnext : base + size seen + Utf8.width c = base + size (seen ++ [c]) := by
      rw [size_append, size_cons, ← Nat.add_assoc]
      rfl
    simp only [scan, hnext, Nat.add_sub_cancel_left]
    split_ifs with hlt
    · have hread := ih (fun v hv _ => Nat.lt_of_le_of_lt (size_mono hv) hlt) (hm.note c)
      rwa [← List.append_cons] at hread
    · refine .inr ⟨seen, c, _, window?_eq_some ⟨cs, (List.append_cons seen c cs).symm⟩ (by simp)
        (Nat.le_of_not_lt hlt) fun v hv hne hsize => ?_, hm.note c, rfl⟩
      have hpre : seen ++ [c] <+: seen ++ c :: cs := ⟨cs, (List.append_cons seen c cs).symm⟩
      rcases List.prefix_or_prefix_of_prefix hpre hv with h | h
      · exact h
      · rcases List.prefix_concat_iff.mp h with rfl | h
        · exact List.prefix_refl _
        · exact absurd (hseen v h hne) (Nat.not_lt.mpr hsize)

/-! ## What is left from before the last cut -/

/-- The memory is ready for the text `ahead` behind `base`: where it holds that a run started behind
`base`, the delimiter will be met again before the next cut. -/
structure Ready (o : WrapOptions) (base : Nat) (m : Memory) (ahead : List Char) : Prop where
  length : m.starts.length = o.delimiters.length
  runStart : m.runStart = base
  renewed : ∀ w, window? o ahead = some w → ∀ i p, m.starts[i]? = some p → base < p →
    ∃ d ∈ w, o.delimiters.idxOf? d = some i

theorem Reads.start_cases (h : Reads o base m₀ w m)
    (hm₀ : ∀ i p, m₀.starts[i]? = some p → base < p → ∃ d ∈ w, o.delimiters.idxOf? d = some i)
    {i p : Nat} (hp : m.starts[i]? = some p) (hlt : base < p) :
    ∃ d ∈ w, o.delimiters.idxOf? d = some i ∧ p = base + size (upTo o w d) := by
  by_cases hmet : ∃ d ∈ w, o.delimiters.idxOf? d = some i
  · obtain ⟨d, hd, hi⟩ := hmet
    exact ⟨d, hd, hi, Option.some.inj (hp.symm.trans (h.met d hd i hi))⟩
  · rw [h.kept i fun d hd hi => hmet ⟨d, hd, hi⟩] at hp
    exact absurd (hm₀ i p hp hlt) hmet

/-- The most preferred delimiter that the memory knows behind `base` is that of the window. -/
theorem Reads.find?_starts (h : Reads o base m₀ w m)
    (hm₀ : ∀ i p, m₀.starts[i]? = some p → base < p → ∃ d ∈ w, o.delimiters.idxOf? d = some i) :
    m.starts.find? (base < ·) =
      ((o.delimiters.map (upTo o w)).find? (· ≠ [])).map (base + size ·) := by
  -- A run at the start of the window is no place to cut.
  have none_of_nil {i p : Nat} (hp : m.starts[i]? = some p)
      (hnil : ∀ d, o.delimiters[i]? = some d → upTo o w d = []) : ¬ base < p := by
    intro hlt
    obtain ⟨d, -, hi, rfl⟩ := h.start_cases hm₀ hp hlt
    rw [hnil d (getElem?_of_idxOf? hi)] at hlt
    exact Nat.lt_irrefl _ hlt
  cases hf : (o.delimiters.map (upTo o w)).find? (· ≠ []) with
  | none =>
    rw [List.find?_eq_none] at hf
    refine List.find?_eq_none.mpr fun p hp => ?_
    obtain ⟨i, hi⟩ := List.getElem?_of_mem hp
    rw [decide_eq_true_eq]
    exact none_of_nil hi fun d hd => by
      simpa using hf _ (List.mem_map_of_mem (List.mem_of_getElem? hd))
  | some c =>
    obtain ⟨hc, j, hj, hcj, hmin⟩ := List.find?_eq_some_iff_getElem.mp hf
    rw [List.length_map] at hj
    rw [decide_eq_true_eq] at hc
    rw [List.getElem_map] at hcj
    have hfirst (k : Nat) (hk : k < o.delimiters.length) (hkj : k < j) :
        upTo o w o.delimiters[k] = [] := by
      simpa using hmin k hkj
    have hidx : o.delimiters.idxOf? o.delimiters[j] = some j := by
      refine List.idxOf?_eq_some_iff.mpr ⟨hj, rfl, fun k hk he => hc ?_⟩
      rw [← hcj, ← hfirst k (hk.trans hj) hk, he]
    have hmem : o.delimiters[j] ∈ w := by
      by_contra hnot
      exact hc (hcj ▸ upTo_eq_nil_of_not_mem hnot)
    obtain ⟨hj', hstart⟩ := List.getElem?_eq_some_iff.mp (h.met _ hmem j hidx)
    rw [hcj] at hstart
    refine List.find?_eq_some_iff_getElem.mpr ⟨?_, j, hj', hstart, fun k hk => ?_⟩
    · simpa using size_pos hc
    · have hk' := List.getElem?_eq_getElem (hk.trans hj')
      simp only [Bool.not_eq_true', decide_eq_false_iff_not]
      refine none_of_nil hk' fun d hd => ?_
      rw [List.getElem?_eq_getElem (hk.trans hj)] at hd
      exact Option.some.inj hd ▸ hfirst k (hk.trans hj) hk

theorem Reads.cutAt_eq {c : Char} (h : Reads o base m₀ (w ++ [c]) m)
    (hm₀ : ∀ i p, m₀.starts[i]? = some p → base < p →
      ∃ d ∈ w ++ [c], o.delimiters.idxOf? d = some i) :
    cutAt o m base (base + size (w ++ [c])) (base + size w) = base + size (cut o (w ++ [c])) := by
  rw [cutAt, h.find?_starts hm₀, cut]
  cases (o.delimiters.map (upTo o (w ++ [c]))).find? (· ≠ []) with
  | some b => rfl
  | none =>
    have hpos : base < base + size w ↔ w ≠ [] := by
      rw [Nat.lt_add_right_iff_pos, Nat.pos_iff_ne_zero, Ne, size_eq_zero_iff]
    simp only [Option.map_none, Option.getD_none, hardCut, List.dropLast_concat,
      Nat.add_sub_cancel_left, hpos]
    split_ifs <;> rfl

/-- Behind what stands before its last run, a delimiter is met once more. -/
theorem exists_upTo_append {d : Char} (hd : d ∈ w) (hdel : d ∈ o.delimiters) :
    ∃ b, w = upTo o w d ++ b ∧ d ∈ b := by
  have hne : w.rdropWhile (· ≠ d) ≠ [] := by
    intro hnil
    simpa using List.rdropWhile_eq_nil_iff.mp hnil d hd
  obtain ⟨x, hx⟩ : ∃ x, w.rdropWhile (· ≠ d) = x ++ [d] := by
    have hlast := List.rdropWhile_last_not _ _ hne
    have hd : (w.rdropWhile (· ≠ d)).getLast hne = d := by simpa using hlast
    exact ⟨_, hd ▸ (List.dropLast_concat_getLast hne).symm⟩
  obtain ⟨z, hz⟩ := List.rdropWhile_prefix (· ≠ d) w
  obtain ⟨y, hy⟩ := List.rdropWhile_prefix (· ∈ o.delimiters) x
  have hup : upTo o w d = x.rdropWhile (· ∈ o.delimiters) := by
    rw [upTo, hx, List.rdropWhile_concat_pos _ _ _ (by simpa using hdel)]
  refine ⟨y ++ d :: z, ?_, by simp⟩
  rw [hup, ← List.append_assoc, hy, List.append_cons, ← hx, hz]

/-- **What is left in the memory is renewed**: a run behind the cut that the memory still knows lies
in the next window. -/
theorem Reads.renewed {body rest w' : List Char} (h : Reads o base m₀ w m)
    (hm₀ : ∀ i p, m₀.starts[i]? = some p → base < p → ∃ d ∈ w, o.delimiters.idxOf? d = some i)
    (hw : window? o (body ++ rest) = some w) (hbody : body ≠ []) (hw' : window? o rest = some w')
    {i p : Nat} (hp : m.starts[i]? = some p) (hlt : base + size body < p) :
    ∃ d ∈ w', o.delimiters.idxOf? d = some i := by
  obtain ⟨hpre, -, -, hmin⟩ := of_window? hw
  obtain ⟨hpre', hne', hsize', -⟩ := of_window? hw'
  obtain ⟨d, hd, hi, rfl⟩ := h.start_cases hm₀ hp (Nat.lt_of_le_of_lt (Nat.le_add_right ..) hlt)
  have hdel : d ∈ o.delimiters := List.mem_of_getElem? (getElem?_of_idxOf? hi)
  obtain ⟨b, hb, hdb⟩ := exists_upTo_append hd hdel
  obtain ⟨a, ha⟩ : body <+: upTo o w d :=
    prefix_of_size_lt (List.prefix_append body rest) ((prefix_upTo o w d).trans hpre)
      (Nat.lt_of_add_lt_add_left hlt)
  have hsplit : w = body ++ (a ++ b) := by rw [← List.append_assoc, ha, ← hb]
  have hin : a ++ b <+: w' := by
    have hrest : a ++ b <+: rest := (List.prefix_append_right_inj body).mp (hsplit ▸ hpre)
    rcases List.prefix_or_prefix_of_prefix hrest hpre' with hin | hin
    · exact hin
    · -- A smaller window would have made the last one smaller.
      refine (List.prefix_append_right_inj body).mp (hsplit ▸ hmin (body ++ w') ?_ ?_ ?_)
      · exact (List.prefix_append_right_inj body).mpr hpre'
      · exact List.append_ne_nil_of_left_ne_nil hbody _
      · rw [size_append]
        exact hsize'.trans (Nat.le_add_left _ _)
  exact ⟨d, hin.subset (List.mem_append_right a hdb), hi⟩

end Memory

/-! ## Pieces -/

section Pieces

variable {o : WrapOptions} {base : Nat} {m : Memory} {ahead : List Char}

theorem splitBytes_size (s t : List Char) : splitBytes (size s) (s ++ t) = (s, t) := by
  induction s with
  | nil => exact splitBytes.eq_1 t
  | cons c s ih =>
    have hpos : size (c :: s) ≠ 0 := Nat.ne_of_gt (size_pos (List.cons_ne_nil c s))
    have hsub : size (c :: s) - Utf8.width c = size s := by
      rw [size_cons, Nat.add_sub_cancel_left]
    rw [List.cons_append, splitBytes.eq_3 _ _ _ hpos, hsub, ih]

theorem absorb_eq (o : WrapOptions) (used : Nat) (tail : List Char) :
    absorb o used tail = (taken o used tail, tail.drop (taken o used tail).length) := by
  have hfst : (absorb o used tail).1 = taken o used tail := by
    induction tail generalizing used with
    | nil => simp [absorb, taken, fitting]
    | cons c tail ih =>
      have hpos := Utf8.width_pos c
      by_cases hc : c ∈ o.delimiters
      · cases hk : o.keepDelimiters with
        | false =>
          have ih := ih (used + Utf8.width c)
          simp only [taken, hk] at ih ⊢
          simpa [absorb, hc, hk] using ih
        | true =>
          by_cases hfit : Utf8.width c ≤ o.width - used
          · have ih := ih (used + Utf8.width c)
            simp only [taken, hk, ← Nat.sub_sub] at ih ⊢
            have hroom : ¬ o.width < used + Utf8.width c := by omega
            simpa [absorb, hc, hk, hroom, fitting, hfit] using ih
          · have hfull : o.width < used + Utf8.width c := by omega
            simp [absorb, taken, hc, hk, hfull, fitting, hfit]
      · simp [absorb, taken, hc, fitting]
  have happend := absorb_append o used tail
  rw [hfst] at happend
  refine Prod.ext hfst ?_
  calc (absorb o used tail).2
      = (taken o used tail ++ (absorb o used tail).2).drop (taken o used tail).length :=
        List.drop_left.symm
    _ = tail.drop (taken o used tail).length := by rw [happend]

theorem cutPiece_eq {m' : Memory} {pos before : Nat} {body tail : List Char}
    (hs : scan o base base m (body ++ tail) = some (m', pos, before))
    (hc : cutAt o m' base pos before = base + size body) :
    cutPiece o m base (body ++ tail) =
      let run := taken o (size body) tail
      let next := base + size (body ++ run)
      some (pieceOf o body run, { m' with runStart := next }, next, tail.drop run.length) := by
  have hnext (run : List Char) :
      base + size body + (Utf8.encode run).length = base + size (body ++ run) := by
    rw [size_append, Nat.add_assoc]
    rfl
  simp only [cutPiece, hs, hc, Nat.add_sub_cancel_left, splitBytes_size, absorb_eq, hnext]
  rfl

theorem firstPiece?_eq {w body tail : List Char} (hw : window? o (body ++ tail) = some w)
    (hc : cut o w = body) :
    firstPiece? o (body ++ tail) =
      let run := taken o (size body) tail
      some (pieceOf o body run, tail.drop run.length) := by
  simp only [firstPiece?, hw, hc, Option.map_some, List.drop_left]

theorem taken_append (o : WrapOptions) (used : Nat) (tail : List Char) :
    taken o used tail ++ tail.drop (taken o used tail).length = tail := by
  have happend := absorb_append o used tail
  rwa [absorb_eq] at happend

/-- **The next piece is the first piece of what is ahead**, and the memory is ready for what
follows. -/
theorem cutPiece_cases (h : Ready o base m ahead) :
    (cutPiece o m base ahead = none ∧ firstPiece? o ahead = none) ∨
      ∃ piece m' next rest, cutPiece o m base ahead = some (piece, m', next, rest) ∧
        firstPiece? o ahead = some (piece, rest) ∧ Ready o next m' rest := by
  have hstart : ∀ v : List Char, v <+: [] → v ≠ [] → size v < o.width := fun v hv hne =>
    absurd (List.prefix_nil.mp hv) hne
  have hscan := scan_cases hstart (reads_nil h.length h.runStart) ahead
  rw [show base + size [] = base from rfl, List.nil_append] at hscan
  rcases hscan with ⟨hs, hw⟩ | ⟨w, c, m', hw, hreads, hs⟩
  · exact .inl ⟨by simp only [cutPiece, hs], by rw [firstPiece?, hw, Option.map_none]⟩
  · have hrenewed := h.renewed _ hw
    have hcut := hreads.cutAt_eq hrenewed
    have hne : cut o (w ++ [c]) ≠ [] := cut_ne_nil (of_window? hw).2.1
    obtain ⟨tail, rfl⟩ := (prefix_cut o (w ++ [c])).trans (of_window? hw).1
    refine .inr ⟨_, _, _, _, cutPiece_eq hs hcut, firstPiece?_eq hw rfl, hreads.length, rfl, ?_⟩
    intro w' hw' i p hp hlt
    refine hreads.renewed hrenewed ?_ (List.append_ne_nil_of_left_ne_nil hne _) hw' hp hlt
    rw [List.append_assoc, taken_append]
    exact hw

theorem greedy_of_none (h : firstPiece? o ahead = none) :
    greedy o ahead = if ahead = [] then [] else [⟨ahead, []⟩] := by
  rw [greedy]
  split
  · rfl
  · simp_all

theorem greedy_of_some {piece : Piece} {rest : List Char}
    (h : firstPiece? o ahead = some (piece, rest)) : greedy o ahead = piece :: greedy o rest := by
  rw [greedy]
  split
  · simp_all
  · rename_i e
    rw [h] at e
    obtain ⟨rfl, rfl⟩ := by simpa using e
    rfl

theorem piecesOnto_eq (pieces : List Piece) (h : Ready o base m ahead) :
    piecesOnto o pieces m base ahead = pieces.reverse ++ greedy o ahead := by
  induction pieces, m, base, ahead using piecesOnto.induct o with
  | case1 pieces m base ahead hcut =>
    rcases cutPiece_cases h with ⟨-, hfirst⟩ | ⟨piece, m', next, rest, hcut', -, -⟩
    · rw [piecesOnto, greedy_of_none hfirst]
      split
      · by_cases hnil : ahead = [] <;> simp [hnil]
      · simp_all
    · rw [hcut] at hcut'
      cases hcut'
  | case2 pieces m base ahead piece m' next rest hcut ih =>
    rcases cutPiece_cases h with ⟨hcut', -⟩ | ⟨piece', m'', next', rest', hcut', hfirst, hready⟩
    · rw [hcut] at hcut'
      cases hcut'
    · rw [hcut] at hcut'
      cases hcut'
      rw [piecesOnto, greedy_of_some hfirst]
      split
      · simp_all
      · rename_i e
        rw [hcut] at e
        cases e
        rw [ih hready, List.reverse_cons, List.append_assoc]
        rfl

theorem ready_start (o : WrapOptions) (text : List Char) :
    Ready o 0 ⟨o.delimiters.map fun _ => 0, 0⟩ text := by
  refine ⟨List.length_map _, rfl, fun w _ i p hp hlt => ?_⟩
  obtain ⟨c, -, rfl⟩ := List.mem_map.mp (List.mem_of_getElem? hp)
  exact absurd hlt (Nat.lt_irrefl 0)

theorem wrap_of_ne_nil {line : List Char} (h : line ≠ []) : wrap o line = greedy o line := by
  rw [wrap, if_neg (by simpa using h), piecesOnto_eq [] (ready_start o line)]
  rfl

end Pieces

end Wrap

/-- **A line is cut greedily and without memory**: every piece is the first piece of what is left of
the line, and the empty line is one empty piece. -/
theorem wrap_eq_greedy (o : WrapOptions) (line : List Char) :
    wrap o line = if line = [] then [⟨[], []⟩] else Wrap.greedy o line := by
  by_cases hline : line = []
  · rw [hline]
    rfl
  · rw [if_neg hline, Wrap.wrap_of_ne_nil hline]

end Coprocess
