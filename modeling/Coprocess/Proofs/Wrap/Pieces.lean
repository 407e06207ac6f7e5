import Coprocess.Proofs.Wrap.Greedy

/-!
# The pieces of a line, one by one

* `Wrap.taken_eq_self`, `Wrap.text_pieceOf`: the delimiters that go with a piece;
* `Wrap.of_firstPiece?`, `Wrap.append_of_firstPiece?`: what a first piece is made of;
* `Wrap.exists_ahead`, **`Wrap.of_mem_wrap`**: every piece of a line is the first piece of a text,
  or a text that does not reach the width;
* `Wrap.preferred?`, **`Wrap.cut_eq`**: the delimiter at which a window is cut;
* **`Wrap.cut_fits`**: what is cut off does not reach the width, or it is the whole window.
-/

namespace Coprocess

namespace Wrap

/-! ## The delimiters that go with a piece -/

section Taken

variable {o : WrapOptions} {n : Nat} {body run tail : List Char}

theorem size_fitting_le (n : Nat) (s : List Char) : size (fitting n s) ≤ n := by
  induction s generalizing n with
  | nil => exact Nat.zero_le n
  | cons c s ih =>
    rw [fitting]
    split_ifs with hc
    · have := ih (n - Utf8.width c)
      rw [size_cons]
      omega
    · exact Nat.zero_le n

theorem prefix_fitting (n : Nat) (s : List Char) : fitting n s <+: s := by
  induction s generalizing n with
  | nil => exact List.prefix_refl []
  | cons c s ih =>
    rw [fitting]
    split_ifs with hc
    · exact (List.prefix_cons_inj c).mpr (ih _)
    · exact List.nil_prefix

theorem fitting_of_size_le {s : List Char} (h : size s ≤ n) : fitting n s = s := by
  induction s generalizing n with
  | nil => rfl
  | cons c s ih =>
    rw [size_cons] at h
    rw [fitting, if_pos (by omega), ih (by omega)]

theorem taken_of_keep (hk : o.keepDelimiters = true) :
    taken o n tail = fitting (o.width - n) (tail.takeWhile (· ∈ o.delimiters)) := if_pos hk

theorem taken_of_not_keep (hk : o.keepDelimiters = false) :
    taken o n tail = tail.takeWhile (· ∈ o.delimiters) := if_neg (by simp [hk])

theorem pieceOf_of_keep (hk : o.keepDelimiters = true) : pieceOf o body run = ⟨body ++ run, []⟩ :=
  if_pos hk

theorem pieceOf_of_not_keep (hk : o.keepDelimiters = false) : pieceOf o body run = ⟨body, run⟩ :=
  if_neg (by simp [hk])

theorem forall_mem_taken (o : WrapOptions) (n : Nat) (tail : List Char) :
    ∀ c ∈ taken o n tail, c ∈ o.delimiters := by
  intro c hc
  have hrun : c ∈ tail.takeWhile (· ∈ o.delimiters) := by
    cases hk : o.keepDelimiters with
    | false => rwa [taken_of_not_keep hk] at hc
    | true =>
      rw [taken_of_keep hk] at hc
      exact (prefix_fitting _ _).subset hc
  simpa using List.mem_takeWhile_imp hrun

theorem taken_eq_self (hrun : ∀ c ∈ run, c ∈ o.delimiters)
    (hroom : o.keepDelimiters = true → size run ≤ o.width - n) : taken o n run = run := by
  have hall : run.takeWhile (· ∈ o.delimiters) = run :=
    List.takeWhile_eq_self_iff.mpr fun c hc => decide_eq_true (hrun c hc)
  cases hk : o.keepDelimiters with
  | false => rw [taken_of_not_keep hk, hall]
  | true => rw [taken_of_keep hk, hall, fitting_of_size_le (hroom hk)]

theorem pieceOf_append (o : WrapOptions) (body run : List Char) :
    (pieceOf o body run).text ++ (pieceOf o body run).delimiter = body ++ run := by
  cases hk : o.keepDelimiters with
  | false => rw [pieceOf_of_not_keep hk]
  | true => rw [pieceOf_of_keep hk, List.append_nil]

/-- The text of a piece is what is cut off and a run of delimiters that the piece would take
again. -/
theorem text_pieceOf (o : WrapOptions) (body tail : List Char) :
    ∃ run, (pieceOf o body (taken o (size body) tail)).text = body ++ run ∧
      taken o (size body) run = run ∧ pieceOf o body run = ⟨body ++ run, []⟩ ∧
      (run ≠ [] → size (body ++ run) ≤ o.width) := by
  cases hk : o.keepDelimiters with
  | false =>
    refine ⟨[], ?_, taken_of_not_keep hk, ?_, fun h => absurd rfl h⟩
    · rw [pieceOf_of_not_keep hk, List.append_nil]
    · rw [pieceOf_of_not_keep hk, List.append_nil]
  | true =>
    have hroom : size (taken o (size body) tail) ≤ o.width - size body := by
      rw [taken_of_keep hk]
      exact size_fitting_le _ _
    refine ⟨taken o (size body) tail, ?_, ?_, pieceOf_of_keep hk, ?_⟩
    · rw [pieceOf_of_keep hk]
    · exact taken_eq_self (forall_mem_taken o _ tail) fun _ => hroom
    · intro hne
      have hpos := size_pos hne
      rw [size_append]
      omega

end Taken

/-! ## The first piece -/

section FirstPiece

variable {o : WrapOptions} {text rest : List Char} {p : Piece}

theorem of_firstPiece? (h : firstPiece? o text = some (p, rest)) :
    ∃ w tail, window? o text = some w ∧ text = cut o w ++ tail ∧
      p = pieceOf o (cut o w) (taken o (size (cut o w)) tail) ∧
      tail = taken o (size (cut o w)) tail ++ rest := by
  obtain ⟨w, hw, he⟩ := Option.map_eq_some_iff.mp h
  obtain ⟨tail, rfl⟩ := (prefix_cut o w).trans (of_window? hw).1
  simp only [List.drop_left, Prod.mk.injEq] at he
  obtain ⟨hp, hrest⟩ := he
  refine ⟨w, tail, hw, rfl, hp.symm, ?_⟩
  rw [← hrest]
  exact (taken_append o _ tail).symm

theorem firstPiece?_nil (o : WrapOptions) : firstPiece? o [] = none := by
  rw [firstPiece?, window?_eq_none_iff.mpr fun v hv hne => absurd (List.prefix_nil.mp hv) hne]
  rfl

theorem firstPiece?_of_size_lt (h : size text < o.width) : firstPiece? o text = none := by
  have hnone : window? o text = none :=
    window?_eq_none_iff.mpr fun v hv _ => Nat.lt_of_le_of_lt (size_mono hv) h
  rw [firstPiece?, hnone]
  rfl

theorem size_lt_of_firstPiece? (h : firstPiece? o text = none) (hne : text ≠ []) :
    size text < o.width := by
  rw [firstPiece?, Option.map_eq_none_iff] at h
  exact window?_eq_none_iff.mp h text (List.prefix_refl text) hne

theorem append_of_firstPiece? (h : firstPiece? o text = some (p, rest)) :
    p.text ++ p.delimiter ++ rest = text := by
  obtain ⟨w, tail, -, htext, hp, htail⟩ := of_firstPiece? h
  rw [hp, pieceOf_append, List.append_assoc, ← htail, ← htext]

theorem text_ne_nil_of_firstPiece? (h : firstPiece? o text = some (p, rest)) : p.text ≠ [] := by
  obtain ⟨w, tail, hw, -, rfl, -⟩ := of_firstPiece? h
  obtain ⟨run, htext, -⟩ := text_pieceOf o (cut o w) tail
  rw [htext]
  exact List.append_ne_nil_of_left_ne_nil (cut_ne_nil (of_window? hw).2.1) run

end FirstPiece

/-! ## All pieces -/

section All

variable {o : WrapOptions} {text line : List Char} {p : Piece} {before after : List Piece}

theorem greedy_nil (o : WrapOptions) : greedy o [] = [] := by
  rw [greedy_of_none (firstPiece?_nil o), if_pos rfl]

theorem greedy_eq_cons (h : greedy o text = p :: after) :
    (firstPiece? o text = none ∧ text ≠ [] ∧ p = ⟨text, []⟩ ∧ after = []) ∨
      ∃ rest, firstPiece? o text = some (p, rest) ∧ greedy o rest = after := by
  cases hf : firstPiece? o text with
  | none =>
    rw [greedy_of_none hf] at h
    split_ifs at h with hnil
    obtain ⟨rfl, rfl⟩ := List.cons.inj h
    exact .inl ⟨rfl, hnil, rfl, rfl⟩
  | some pr =>
    obtain ⟨q, rest⟩ := pr
    rw [greedy_of_some hf] at h
    obtain ⟨rfl, hrest⟩ := List.cons.inj h
    exact .inr ⟨rest, rfl, hrest⟩

theorem greedy_eq_nil_iff : greedy o text = [] ↔ text = [] := by
  constructor
  · intro h
    by_contra hne
    cases hf : firstPiece? o text with
    | none =>
      rw [greedy_of_none hf, if_neg hne] at h
      cases h
    | some pr =>
      obtain ⟨p, rest⟩ := pr
      rw [greedy_of_some hf] at h
      cases h
  · rintro rfl
    exact greedy_nil o

theorem flatMap_greedy (o : WrapOptions) (text : List Char) :
    (greedy o text).flatMap (fun p => p.text ++ p.delimiter) = text := by
  by_cases h : text = []
  · rw [h, greedy_nil]
    rfl
  · rw [← wrap_of_ne_nil h, flatMap_wrap]

theorem exists_head_of_greedy (h : greedy o text = p :: after) :
    ∃ c rest, p.text = c :: rest ∧ text.head? = some c := by
  rcases greedy_eq_cons h with ⟨-, hne, rfl, -⟩ | ⟨rest, hf, -⟩
  · obtain ⟨c, rest, rfl⟩ := List.exists_cons_of_ne_nil hne
    exact ⟨c, rest, rfl, rfl⟩
  · obtain ⟨c, more, hc⟩ := List.exists_cons_of_ne_nil (text_ne_nil_of_firstPiece? hf)
    refine ⟨c, more, hc, ?_⟩
    rw [← append_of_firstPiece? hf, hc]
    rfl

/-- A piece and those after it are the pieces of what lies ahead: of all the text, or of what
another first piece left. -/
theorem exists_ahead (h : greedy o text = before ++ p :: after) :
    ∃ ahead, greedy o ahead = p :: after ∧
      (before = [] ∧ ahead = text ∨ ∃ behind q, firstPiece? o behind = some (q, ahead)) := by
  induction before generalizing text with
  | nil => exact ⟨text, h, .inl ⟨rfl, rfl⟩⟩
  | cons q before ih =>
    rcases greedy_eq_cons h with ⟨-, -, -, hnil⟩ | ⟨rest, hf, hrest⟩
    · simp at hnil
    · obtain ⟨ahead, hahead, hfrom⟩ := ih hrest
      refine ⟨ahead, hahead, .inr ?_⟩
      rcases hfrom with ⟨-, rfl⟩ | hfrom
      · exact ⟨text, q, hf⟩
      · exact hfrom

/-- **A piece of a line** is the first piece of some text, or it is a text that has none. -/
theorem of_mem_wrap (hp : p ∈ wrap o line) :
    (∃ ahead rest, firstPiece? o ahead = some (p, rest)) ∨
      firstPiece? o p.text = none ∧ p.delimiter = [] := by
  by_cases hline : line = []
  · subst hline
    obtain rfl := List.mem_singleton.mp hp
    exact .inr ⟨firstPiece?_nil o, rfl⟩
  · rw [wrap_of_ne_nil hline] at hp
    obtain ⟨before, after, h⟩ := List.append_of_mem hp
    obtain ⟨ahead, hahead, -⟩ := exists_ahead h
    rcases greedy_eq_cons hahead with ⟨hf, -, rfl, -⟩ | ⟨rest, hf, -⟩
    · exact .inr ⟨hf, rfl⟩
    · exact .inl ⟨ahead, rest, hf⟩

theorem wrap_eq_singleton_iff :
    wrap o line = [⟨line, []⟩] ↔
      firstPiece? o line = none ∨ firstPiece? o line = some (⟨line, []⟩, []) := by
  by_cases hline : line = []
  · subst hline
    exact iff_of_true rfl (.inl (firstPiece?_nil o))
  rw [wrap_of_ne_nil hline]
  constructor
  · intro h
    rcases greedy_eq_cons h with ⟨hf, -⟩ | ⟨rest, hf, hrest⟩
    · exact .inl hf
    · obtain rfl := greedy_eq_nil_iff.mp hrest
      exact .inr hf
  · rintro (hf | hf)
    · rw [greedy_of_none hf, if_neg hline]
    · rw [greedy_of_some hf, greedy_nil]

end All

/-! ## The delimiter to cut at -/

section Preferred

variable {o : WrapOptions} {w : List Char} {d : Char}

/-- The most preferred delimiter of a window, where the delimiters that it begins with do not
count. -/
def preferred? (o : WrapOptions) (w : List Char) : Option Char :=
  o.delimiters.find? (· ∈ w.dropWhile (· ∈ o.delimiters))

theorem mem_dropWhile_of_getLast? {q : Char → Bool} {l : List Char} {c : Char}
    (hc : l.getLast? = some c) (h : l.dropWhile q ≠ []) : c ∈ l.dropWhile q := by
  have hmem := List.getLast_mem h
  rw [(List.dropWhile_suffix q).getLast h] at hmem
  rw [List.getLast?_eq_some_getLast (List.ne_nil_of_mem (List.mem_of_getLast? hc))] at hc
  rwa [← Option.some.inj hc]

/-- Something stands before the last run of `d` if there is a `d` behind the delimiters that begin
the window. -/
theorem upTo_ne_nil_iff : upTo o w d ≠ [] ↔ d ∈ w.dropWhile (· ∈ o.delimiters) := by
  have hw : w = w.rdropWhile (· ≠ d) ++ w.rtakeWhile (· ≠ d) :=
    List.rdropWhile_append_rtakeWhile.symm
  have hbehind : d ∉ w.rtakeWhile (· ≠ d) := fun h => by simpa using List.mem_rtakeWhile_imp h
  rw [upTo, Ne, List.rdropWhile_eq_nil_iff, ← List.dropWhile_eq_nil_iff]
  conv_rhs => rw [hw, List.dropWhile_append]
  by_cases hall : (w.rdropWhile (· ≠ d)).dropWhile (· ∈ o.delimiters) = []
  · rw [hall]
    simp only [not_true_eq_false, List.isEmpty_nil, if_true, false_iff]
    exact fun h => hbehind ((List.dropWhile_suffix _).subset h)
  · have hne : w.rdropWhile (· ≠ d) ≠ [] := fun h => hall (by rw [h]; rfl)
    have hlast : (w.rdropWhile (· ≠ d)).getLast? = some d := by
      rw [List.getLast?_eq_some_getLast hne]
      simpa using List.rdropWhile_last_not _ _ hne
    rw [if_neg (by simpa using hall)]
    exact iff_of_true hall (List.mem_append_left _ (mem_dropWhile_of_getLast? hlast hall))

/-- **A window is cut at its most preferred delimiter**, and where the width is reached without
one. -/
theorem cut_eq (o : WrapOptions) (w : List Char) :
    cut o w = ((preferred? o w).map (upTo o w)).getD (hardCut o w) := by
  have hfind : o.delimiters.find? ((fun v => decide (v ≠ [])) ∘ upTo o w) = preferred? o w := by
    congr 1
    funext d
    exact decide_eq_decide.mpr upTo_ne_nil_iff
  rw [cut, List.find?_map, hfind]

theorem cut_eq_hardCut (h : preferred? o w = none) : cut o w = hardCut o w := by
  rw [cut_eq, h]
  rfl

theorem cut_eq_upTo (h : preferred? o w = some d) :
    d ∈ o.delimiters ∧ upTo o w d ≠ [] ∧ cut o w = upTo o w d := by
  refine ⟨List.mem_of_find?_eq_some h, upTo_ne_nil_iff.mpr (by simpa using List.find?_some h), ?_⟩
  rw [cut_eq, h]
  rfl

end Preferred

/-! ## The width -/

section Width

variable {o : WrapOptions} {text w v : List Char}

theorem size_lt_of_window? (hw : window? o text = some w) (hv : v <+: w) (hne : v ≠ [])
    (hvw : v ≠ w) : size v < o.width := by
  obtain ⟨hpre, -, -, hmin⟩ := of_window? hw
  by_contra hsize
  have hback := hmin v (hv.trans hpre) hne (Nat.le_of_not_lt hsize)
  exact hvw (hv.eq_of_length_le hback.length_le)

theorem upTo_ne_self {d : Char} (hd : d ∈ o.delimiters) (hne : upTo o w d ≠ []) :
    upTo o w d ≠ w := by
  intro he
  have hdw : d ∈ w := by
    by_contra hnot
    exact hne (upTo_eq_nil_of_not_mem hnot)
  obtain ⟨b, hb, hdb⟩ := exists_upTo_append hdw hd
  rw [he] at hb
  obtain rfl : b = [] := by simpa using hb
  cases hdb

/-- **What is cut off does not reach the width**, or it is the whole window, which fills the width
or is a single character. -/
theorem cut_fits (hw : window? o text = some w) :
    size (cut o w) < o.width ∨ cut o w = w ∧ (size w = o.width ∨ ∃ c, w = [c]) := by
  obtain ⟨-, hne, hsize, -⟩ := of_window? hw
  rcases cut_cases o w with ⟨d, hd, hup, hcut⟩ | ⟨-, hcut⟩
  · left
    rw [hcut]
    exact size_lt_of_window? hw (prefix_upTo o w d) hup (upTo_ne_self hd hup)
  · rw [hcut]
    unfold hardCut
    split_ifs with hbeyond
    · left
      apply size_lt_of_window? hw (List.dropLast_prefix w) hbeyond.2
      intro he
      have hlen := congrArg List.length he
      have hpos := List.length_pos_iff.mpr hne
      rw [List.length_dropLast] at hlen
      omega
    · right
      refine ⟨rfl, ?_⟩
      by_cases hlast : w.dropLast = []
      · right
        exact ⟨w.getLast hne, by simpa [hlast] using (List.dropLast_concat_getLast hne).symm⟩
      · left
        have hle : ¬ o.width < size w := fun hlt => hbeyond ⟨hlt, hlast⟩
        omega

end Width

end Wrap

end Coprocess
