import Coprocess.Proofs.Wrap.Pieces

/-!
# Delimiters around a cut

* `Wrap.cut_ending`: a cut that ends in a delimiter has nothing but delimiters;
* **`Wrap.of_head?_rest`**: what follows a piece begins with no delimiter, or with one that has no
  room;
* `Wrap.delimiter_eq_takeWhile`: which delimiters stand beside a piece;
* **`runs_whole`**: the delimiters around a cut stay together.
-/

namespace Coprocess

open Wrap

namespace Wrap

section Runs

variable {o : WrapOptions} {text rest : List Char} {p : Piece} {before after : List Piece} {n : Nat}

/-- **A cut that ends in a delimiter has nothing but delimiters.** -/
theorem cut_ending (o : WrapOptions) (w : List Char) :
    (∀ c ∈ (cut o w).getLast?, c ∉ o.delimiters) ∨ ∀ c ∈ cut o w, c ∈ o.delimiters := by
  cases hpref : preferred? o w with
  | some d =>
    obtain ⟨-, hup, hcut⟩ := cut_eq_upTo hpref
    left
    intro c hc
    have hlast := List.rdropWhile_last_not _ _ hup
    rw [hcut, List.getLast?_eq_some_getLast hup] at hc
    obtain rfl := Option.some.inj hc
    exact fun hdel => hlast (decide_eq_true hdel)
  | none =>
    -- There are no delimiters behind those that begin the window.
    have hfree : ∀ c ∈ w.dropWhile (· ∈ o.delimiters), c ∉ o.delimiters := by
      intro c hc hdel
      exact List.find?_eq_none.mp hpref c hdel (decide_eq_true hc)
    by_cases hall : (cut o w).dropWhile (· ∈ o.delimiters) = []
    · right
      intro c hc
      simpa using List.dropWhile_eq_nil_iff.mp hall c hc
    · left
      intro c hc
      apply hfree
      obtain ⟨t, ht⟩ := prefix_cut o w
      rw [← ht, List.dropWhile_append, if_neg (by simpa using hall)]
      exact List.mem_append_left t (mem_dropWhile_of_getLast? hc hall)

/-! ## What follows a piece -/

theorem eq_false_of_head?_dropWhile {q : Char → Bool} {l : List Char} {c : Char}
    (h : (l.dropWhile q).head? = some c) : q c = false := by
  have hq := List.head?_dropWhile_not q l
  rw [h] at hq
  exact hq

theorem room_of_fitting {s r : List Char} {c : Char} (h : fitting n s ++ c :: r = s) :
    n < size (fitting n s ++ [c]) := by
  induction s generalizing n with
  | nil => simp [fitting] at h
  | cons d s ih =>
    rw [fitting] at h ⊢
    split_ifs at h ⊢ with hd
    · have := ih (List.cons.inj h).2
      rw [List.cons_append, size_cons]
      omega
    · obtain rfl := (List.cons.inj h).1
      rw [List.nil_append, size_cons]
      omega

/-- **What follows a piece** begins with no delimiter, or delimiters are kept and it has no room. -/
theorem of_head?_rest (h : firstPiece? o text = some (p, rest)) {c : Char}
    (hc : rest.head? = some c) :
    c ∉ o.delimiters ∨ o.keepDelimiters = true ∧ o.width < size (p.text ++ [c]) := by
  obtain ⟨w, tail, -, -, rfl, htail⟩ := of_firstPiece? h
  have hsplit : tail.takeWhile (· ∈ o.delimiters) ++ tail.dropWhile (· ∈ o.delimiters) = tail :=
    List.takeWhile_append_dropWhile
  cases hk : o.keepDelimiters with
  | false =>
    left
    rw [taken_of_not_keep hk] at htail
    rw [← List.append_cancel_left (hsplit.trans htail)] at hc
    simpa using eq_false_of_head?_dropWhile hc
  | true =>
    rw [taken_of_keep hk] at htail
    obtain ⟨r, hr⟩ := prefix_fitting (o.width - size (cut o w)) (tail.takeWhile (· ∈ o.delimiters))
    have hrest : rest = r ++ tail.dropWhile (· ∈ o.delimiters) := by
      apply List.append_cancel_left
      rw [← htail, ← List.append_assoc, hr, hsplit]
    cases r with
    | nil =>
      left
      rw [hrest, List.nil_append] at hc
      simpa using eq_false_of_head?_dropWhile hc
    | cons d r =>
      right
      rw [hrest] at hc
      obtain rfl := Option.some.inj hc
      have hroom := room_of_fitting hr
      rw [pieceOf_of_keep hk, taken_of_keep hk, List.append_assoc, size_append]
      exact ⟨rfl, by omega⟩

theorem of_next_piece (h : firstPiece? o text = some (p, rest)) (hrest : greedy o rest = after) :
    ∀ q ∈ after.head?, ∃ c more, q.text = c :: more ∧
      (c ∉ o.delimiters ∨ o.keepDelimiters = true ∧ o.width < size (p.text ++ [c])) := by
  intro q hq
  obtain ⟨behind, rfl⟩ := List.head?_eq_some_iff.mp hq
  obtain ⟨c, more, hmore, hc⟩ := exists_head_of_greedy hrest
  exact ⟨c, more, hmore, of_head?_rest h hc⟩

theorem before_eq_nil_of_delimiters (hk : o.keepDelimiters = false)
    (h : greedy o text = before ++ p :: after) (hall : ∀ c ∈ p.text, c ∈ o.delimiters) :
    before = [] := by
  obtain ⟨ahead, hahead, ⟨hfirst, -⟩ | ⟨behind, q, hq⟩⟩ := exists_ahead h
  · exact hfirst
  · obtain ⟨c, more, hmore, hc⟩ := exists_head_of_greedy hahead
    have hdel : c ∈ o.delimiters := hall c (hmore ▸ List.mem_cons_self)
    rcases of_head?_rest hq hc with hfree | ⟨hkept, -⟩
    · exact absurd hdel hfree
    · cases hk.symm.trans hkept

/-! ## Which delimiters stand beside a piece -/

theorem delimiter_eq_nil (hk : o.keepDelimiters = true)
    (h : firstPiece? o text = some (p, rest)) : p.delimiter = [] := by
  obtain ⟨w, tail, -, -, rfl, -⟩ := of_firstPiece? h
  rw [pieceOf_of_keep hk]

theorem delimiter_eq_takeWhile (hk : o.keepDelimiters = false)
    (h : firstPiece? o text = some (p, rest)) :
    p.delimiter = (p.delimiter ++ rest).takeWhile (· ∈ o.delimiters) := by
  obtain ⟨w, tail, -, -, hp, htail⟩ := of_firstPiece? h
  have hrun : p.delimiter = taken o (size (cut o w)) tail := by
    rw [hp, pieceOf_of_not_keep hk]
  rw [hrun, ← htail, taken_of_not_keep hk]

theorem text_ending (hk : o.keepDelimiters = false) (h : firstPiece? o text = some (p, rest)) :
    (∀ c ∈ p.text.getLast?, c ∉ o.delimiters) ∨ ∀ c ∈ p.text, c ∈ o.delimiters := by
  obtain ⟨w, tail, -, -, rfl, -⟩ := of_firstPiece? h
  rw [pieceOf_of_not_keep hk]
  exact cut_ending o w

end Runs

end Wrap

/-- **The delimiters around a cut stay together.** No text is empty but that of the empty line.
Delimiters that are taken out are the whole run behind a text, so that no text begins with one after
a cut, and only the first text, if there are only delimiters in it, ends with one before a cut.
Where delimiters are kept, none is taken out, and a text begins with one after a cut only if it has
no room in the text before. -/
theorem runs_whole {o : WrapOptions} {line : List Char} {before after : List Piece} {p : Piece}
    (h : wrap o line = before ++ p :: after) :
    (p.text = [] → line = []) ∧
      (o.keepDelimiters = false →
        p.delimiter = (p.delimiter ++ after.flatMap fun q => q.text ++ q.delimiter).takeWhile
          (· ∈ o.delimiters) ∧
        (∀ q ∈ after.head?, ∃ c rest, q.text = c :: rest ∧ c ∉ o.delimiters) ∧
        (after ≠ [] → (∀ c ∈ p.text.getLast?, c ∉ o.delimiters) ∨
          before = [] ∧ ∀ c ∈ p.text, c ∈ o.delimiters)) ∧
      (o.keepDelimiters = true →
        p.delimiter = [] ∧ ∀ q ∈ after.head?, ∃ c rest, q.text = c :: rest ∧
          (c ∉ o.delimiters ∨ o.width < (Utf8.encode (p.text ++ [c])).length)) := by
  by_cases hline : line = []
  · subst hline
    have hlast : p = ⟨[], []⟩ ∧ after = [] := by
      cases before with
      | nil => exact ⟨(List.cons.inj h).1.symm, (List.cons.inj h).2.symm⟩
      | cons q before => simp [wrap] at h
    obtain ⟨rfl, rfl⟩ := hlast
    simp
  rw [wrap_of_ne_nil hline] at h
  obtain ⟨ahead, hahead, -⟩ := exists_ahead h
  rcases greedy_eq_cons hahead with ⟨-, hne, rfl, rfl⟩ | ⟨rest, hf, hrest⟩
  · refine ⟨fun he => absurd he hne, ?_, ?_⟩ <;> simp
  have hnext := of_next_piece hf hrest
  refine ⟨fun he => absurd he (text_ne_nil_of_firstPiece? hf), ?_, ?_⟩
  · intro hk
    refine ⟨?_, ?_, ?_⟩
    · rw [← hrest, flatMap_greedy]
      exact delimiter_eq_takeWhile hk hf
    · intro q hq
      obtain ⟨c, more, hc, hfree | ⟨hkept, -⟩⟩ := hnext q hq
      · exact ⟨c, more, hc, hfree⟩
      · cases hk.symm.trans hkept
    · intro _
      rcases text_ending hk hf with hfree | hall
      · exact .inl hfree
      · exact .inr ⟨before_eq_nil_of_delimiters hk h hall, hall⟩
  · intro hk
    refine ⟨delimiter_eq_nil hk hf, ?_⟩
    intro q hq
    obtain ⟨c, more, hc, hfree | ⟨-, hroom⟩⟩ := hnext q hq
    · exact ⟨c, more, hc, .inl hfree⟩
    · exact ⟨c, more, hc, .inr hroom⟩

/-- A line begins with three delimiters, of which two fill the width. Taken out, the third goes with
them; kept, it begins the next piece, since it has no room. -/
theorem runs_whole_leading :
    let line : List Char := ['·', ' ', '·', 'a', 'b', ' ', '·', 'c', 'd']
    let first : List Piece := [⟨['a', 'b'], [' ', '·']⟩, ⟨['c', 'd'], []⟩]
    (wrap ⟨3, [' ', '·'], false⟩ line = [] ++ ⟨['·', ' '], ['·']⟩ :: first ∧
      ['·'] = (['·'] ++ first.flatMap fun q => q.text ++ q.delimiter).takeWhile (· ∈ [' ', '·'])) ∧
    ∃ after, wrap ⟨3, [' ', '·'], true⟩ line = [] ++ ⟨['·', ' '], []⟩ :: after ∧
      ∃ q, after.head? = some q ∧ ∃ c rest, q.text = c :: rest ∧
        (c ∉ [' ', '·'] ∨ 3 < (Utf8.encode (['·', ' '] ++ [c])).length) := by
  intro line first
  have htaken : wrap ⟨3, [' ', '·'], false⟩ line = [] ++ ⟨['·', ' '], ['·']⟩ :: first := by
    decide +kernel
  have hkept : wrap ⟨3, [' ', '·'], true⟩ line =
      [] ++ ⟨['·', ' '], []⟩ ::
        [⟨['·', 'a'], []⟩, ⟨['b', ' '], []⟩, ⟨['·', 'c'], []⟩, ⟨['d'], []⟩] := by
    decide +kernel
  exact ⟨⟨htaken, ((runs_whole htaken).2.1 rfl).1⟩, _, hkept, _, rfl,
    ((runs_whole hkept).2.2 rfl).2 _ rfl⟩

end Coprocess
