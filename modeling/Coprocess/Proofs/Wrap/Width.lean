import Coprocess.Proofs.Collector.Echo
import Coprocess.Proofs.Wrap.Pieces

/-!
# Pieces and the width

* `Wrap.piece_fits`: the text of a piece against the width;
* `Source.of_mem_lines_payloads`: what a source that wraps lines sends;
* **`pieces_fit`**: pieces fit the width, or they are single characters;
* `Wrap.Solid`, **`wrap_whole_iff`**: which lines are left whole;
* **`wrap_piece`**: pieces are not cut again.
-/

namespace Coprocess

open Wrap

namespace Wrap

section Pieces

variable {o : WrapOptions} {text rest line : List Char} {p : Piece}

theorem text_fits (h : firstPiece? o text = some (p, rest)) :
    size p.text ≤ o.width ∨ ∃ c, p.text = [c] := by
  obtain ⟨w, tail, hw, -, rfl, -⟩ := of_firstPiece? h
  obtain ⟨run, htext, -, -, hroom⟩ := text_pieceOf o (cut o w) tail
  rw [htext]
  by_cases hrun : run = []
  · subst hrun
    rw [List.append_nil]
    rcases cut_fits hw with hlt | ⟨hcut, hfull | ⟨c, hc⟩⟩
    · exact .inl (Nat.le_of_lt hlt)
    · rw [hcut]
      exact .inl (Nat.le_of_eq hfull)
    · rw [hcut]
      exact .inr ⟨c, hc⟩
  · exact .inl (hroom hrun)

theorem piece_fits (hp : p ∈ wrap o line) : size p.text ≤ o.width ∨ ∃ c, p.text = [c] := by
  rcases of_mem_wrap hp with ⟨ahead, rest, h⟩ | ⟨h, -⟩
  · exact text_fits h
  · left
    by_cases hnil : p.text = []
    · rw [hnil]
      exact Nat.zero_le _
    · exact Nat.le_of_lt (size_lt_of_firstPiece? h hnil)

end Pieces

end Wrap

/-! ## Lines sent -/

theorem Source.of_mem_lines_payloads {o : WrapOptions} {s : Source} (hk : s.kind = .fold o)
    {l : Bytes} (hl : l ∈ lines (payloads s.parcels)) :
    ∃ line, ∃ p ∈ wrap o line, l = Utf8.encode p.text := by
  have hfold : ∀ q ∈ s.parcels, ∃ text, '\n' ∉ text ∧ q = foldParcel o text := by
    intro q hq
    obtain ⟨keys, keys', unit, line, hline, hd⟩ := of_mem_parcels hq
    rw [hk] at hd
    obtain ⟨text, hdecode, he, -⟩ := of_describe_fold hd
    exact ⟨text, Utf8.newline_not_mem_decode hdecode hline, he⟩
  have hterm : ∀ q ∈ s.parcels, Terminated q.payload := by
    intro q hq
    obtain ⟨text, htext, rfl⟩ := hfold q hq
    exact (fair_foldParcel o htext {}).terminated
  rw [lines_payloads hterm] at hl
  obtain ⟨q, hq, hl⟩ := List.mem_flatMap.mp hl
  obtain ⟨text, htext, rfl⟩ := hfold q hq
  rw [lines_foldParcel o htext] at hl
  obtain ⟨p, hp, rfl⟩ := List.mem_map.mp hl
  exact ⟨text, p, hp, rfl⟩

/-- **Pieces fit the width.** The text of a piece has no more bytes than the width, or it is a
single character; a line that is sent for a source that wraps lines has no more bytes than the
width, or it is a single character that is wider. -/
theorem pieces_fit (o : WrapOptions) :
    (∀ line, ∀ p ∈ wrap o line, (Utf8.encode p.text).length ≤ o.width ∨ ∃ c, p.text = [c]) ∧
      ∀ s : Source, s.kind = .fold o → ∀ l ∈ lines (payloads s.parcels),
        l.length ≤ o.width ∨ ∃ c, l = Utf8.encodeChar c ∧ o.width < Utf8.width c := by
  refine ⟨fun line p hp => piece_fits hp, ?_⟩
  intro s hs l hl
  obtain ⟨line, p, hp, rfl⟩ := Source.of_mem_lines_payloads hs hl
  by_cases hfit : (Utf8.encode p.text).length ≤ o.width
  · exact .inl hfit
  · obtain ⟨c, hc⟩ := (piece_fits hp).resolve_left hfit
    have henc : Utf8.encode p.text = Utf8.encodeChar c := by
      rw [hc]
      exact List.append_nil _
    rw [henc] at hfit ⊢
    exact .inr ⟨c, rfl, Nat.lt_of_not_le hfit⟩

/-- A character of three bytes and a blank that is kept, for a width of two. -/
theorem pieces_fit_wide :
    let o : WrapOptions := ⟨2, [' '], true⟩
    let line : List Char := ['é', '€', 'a', ' ', 'b']
    let s : Source := { kind := .fold o, input := Utf8.encode line }
    (⟨['€'], []⟩ ∈ wrap o line ∧
        ((Utf8.encode ['€']).length ≤ o.width ∨ ∃ c, ['€'] = [c])) ∧
      s.kind = .fold o ∧ Utf8.encodeChar '€' ∈ lines (payloads s.parcels) ∧
      ((Utf8.encodeChar '€').length ≤ o.width ∨
        ∃ c, Utf8.encodeChar '€' = Utf8.encodeChar c ∧ o.width < Utf8.width c) := by
  intro o line s
  have hp : ⟨['€'], []⟩ ∈ wrap o line := by decide +kernel
  have hl : Utf8.encodeChar '€' ∈ lines (payloads s.parcels) := by decide +kernel
  obtain ⟨hpieces, hlines⟩ := pieces_fit o
  exact ⟨⟨hp, hpieces line _ hp⟩, rfl, hl, hlines s rfl _ hl⟩

/-! ## Lines left whole -/

namespace Wrap

section Whole

variable {o : WrapOptions} {line body run w : List Char} {d : Char}

/-- No cut at a delimiter would leave anything: behind the delimiters that begin the text there are
no others, or delimiters are kept and the last one of the kind preferred most has only delimiters
behind it. -/
def Solid (o : WrapOptions) (text : List Char) : Prop :=
  ∀ d ∈ preferred? o text, o.keepDelimiters = true ∧
    ∀ c ∈ text.rtakeWhile (· ≠ d), c ∈ o.delimiters

theorem all_eq_true_iff_solid : ((preferred? o line).all fun d =>
    o.keepDelimiters && (line.rtakeWhile (· ≠ d)).all (· ∈ o.delimiters)) = true ↔
      Solid o line := by
  unfold Solid
  cases preferred? o line <;> simp

instance (o : WrapOptions) (text : List Char) : Decidable (Solid o text) :=
  decidable_of_iff _ all_eq_true_iff_solid

theorem window?_of_size_eq (hne : line ≠ []) (h : size line = o.width) :
    window? o line = some line := by
  apply window?_eq_some (List.prefix_refl line) hne (Nat.le_of_eq h.symm)
  intro v hv _ hsize
  obtain ⟨r, rfl⟩ := hv
  rw [size_append] at h
  have hr : r = [] := size_eq_zero_iff.mp (by omega)
  rw [hr, List.append_nil]

/-- What follows a cut at a delimiter: the run that holds the last one, and what stands behind
it. -/
theorem exists_run_append (o : WrapOptions) (line : List Char) (d : Char) :
    ∃ run, (∀ c ∈ run, c ∈ o.delimiters) ∧
      line = upTo o line d ++ (run ++ line.rtakeWhile (· ≠ d)) := by
  refine ⟨(line.rdropWhile (· ≠ d)).rtakeWhile (· ∈ o.delimiters), ?_, ?_⟩
  · intro c hc
    simpa using List.mem_rtakeWhile_imp hc
  · unfold upTo
    rw [← List.append_assoc, List.rdropWhile_append_rtakeWhile, List.rdropWhile_append_rtakeWhile]

theorem firstPiece?_of_taken (hw : window? o (body ++ run) = some w) (hc : cut o w = body)
    (htaken : taken o (size body) run = run) (hpiece : pieceOf o body run = ⟨body ++ run, []⟩) :
    firstPiece? o (body ++ run) = some (⟨body ++ run, []⟩, []) := by
  rw [firstPiece?_eq hw hc, htaken]
  show some (pieceOf o body run, run.drop run.length) = _
  rw [hpiece, List.drop_length]

theorem firstPiece?_of_cut_eq_self (hw : window? o line = some line) (hc : cut o line = line) :
    firstPiece? o line = some (⟨line, []⟩, []) := by
  have htaken : taken o (size line) [] = [] := taken_eq_self (by simp) fun _ => Nat.zero_le _
  have hpiece : pieceOf o line [] = ⟨line ++ [], []⟩ := by
    cases hk : o.keepDelimiters with
    | false => rw [pieceOf_of_not_keep hk, List.append_nil]
    | true => exact pieceOf_of_keep hk
  have h := firstPiece?_of_taken (by rwa [List.append_nil]) hc htaken hpiece
  rwa [List.append_nil] at h

theorem solid_of_firstPiece? (hw : window? o line = some line)
    (hf : firstPiece? o line = some (⟨line, []⟩, [])) : Solid o line := by
  intro d hd
  obtain ⟨hdel, hup, hcut⟩ := cut_eq_upTo hd
  obtain ⟨w, tail, hw', htext, hp, htail⟩ := of_firstPiece? hf
  obtain rfl : line = w := Option.some.inj (hw.symm.trans hw')
  rw [hcut] at hp htext htail
  constructor
  · by_contra hk
    rw [pieceOf_of_not_keep (by simpa using hk)] at hp
    exact upTo_ne_self hdel hup (congrArg Piece.text hp).symm
  · -- All that is cut off went with the piece, and what stands behind the last `d` is part of it.
    obtain ⟨run, -, hline⟩ := exists_run_append o line d
    have hsplit : tail = run ++ line.rtakeWhile (· ≠ d) :=
      List.append_cancel_left (htext.symm.trans hline)
    rw [List.append_nil] at htail
    intro c hc
    apply forall_mem_taken o (size (upTo o line d)) tail
    rw [← htail, hsplit]
    exact List.mem_append_right run hc

/-- **A solid text that fills the width is its own first piece.** -/
theorem firstPiece?_of_solid (hw : window? o line = some line) (h : size line = o.width)
    (hsolid : Solid o line) : firstPiece? o line = some (⟨line, []⟩, []) := by
  cases hpref : preferred? o line with
  | none =>
    have hhard : hardCut o line = line := if_neg fun hbeyond => by omega
    exact firstPiece?_of_cut_eq_self hw ((cut_eq_hardCut hpref).trans hhard)
  | some d =>
    obtain ⟨-, -, hcut⟩ := cut_eq_upTo hpref
    obtain ⟨hk, hbehind⟩ := hsolid d hpref
    obtain ⟨run, hrun, hline⟩ := exists_run_append o line d
    generalize upTo o line d = body at hcut hline
    generalize line.rtakeWhile (· ≠ d) = behind at hbehind hline
    subst hline
    refine firstPiece?_of_taken hw hcut (taken_eq_self ?_ ?_) (pieceOf_of_keep hk)
    · intro c hc
      exact (List.mem_append.mp hc).elim (hrun c) (hbehind c)
    · intro _
      rw [size_append] at h
      omega

theorem wrap_singleton (o : WrapOptions) (c : Char) : wrap o [c] = [⟨[c], []⟩] := by
  apply wrap_eq_singleton_iff.mpr
  cases hf : firstPiece? o [c] with
  | none => exact .inl rfl
  | some pr =>
    obtain ⟨p, rest⟩ := pr
    right
    obtain ⟨w, tail, hw, -⟩ := of_firstPiece? hf
    obtain ⟨hpre, hne, -⟩ := of_window? hw
    have whole {v : List Char} (hv : v <+: [c]) (hvne : v ≠ []) : v = [c] :=
      hv.eq_of_length_le (List.length_pos_iff.mpr hvne)
    obtain rfl := whole hpre hne
    rw [← hf]
    exact firstPiece?_of_cut_eq_self hw (whole (prefix_cut o [c]) (cut_ne_nil hne))

end Whole

end Wrap

/-- **Which lines are left whole.** A line is one piece exactly if it does not reach the width, if
it fills the width and is solid, or if it is a single character. -/
theorem wrap_whole_iff (o : WrapOptions) (line : List Char) :
    wrap o line = [⟨line, []⟩] ↔
      (Utf8.encode line).length < o.width ∨
        (Utf8.encode line).length = o.width ∧ Solid o line ∨ ∃ c, line = [c] := by
  constructor
  · intro h
    have hp : ⟨line, []⟩ ∈ wrap o line := h ▸ List.mem_singleton_self _
    rcases piece_fits hp with hle | hsingle
    · rcases Nat.lt_or_eq_of_le hle with hlt | heq
      · exact .inl hlt
      · refine .inr (.inl ⟨heq, ?_⟩)
        by_cases hnil : line = []
        · subst hnil
          intro d hd
          exact absurd (List.find?_some hd) (by simp)
        · apply solid_of_firstPiece? (window?_of_size_eq hnil heq)
          apply (wrap_eq_singleton_iff.mp h).resolve_left
          intro hnone
          exact absurd (size_lt_of_firstPiece? hnone hnil)
            (Nat.not_lt_of_ge (Nat.le_of_eq heq.symm))
    · exact .inr (.inr hsingle)
  · rintro (hlt | ⟨heq, hsolid⟩ | ⟨c, rfl⟩)
    · exact wrap_eq_singleton_iff.mpr (.inl (firstPiece?_of_size_lt hlt))
    · by_cases hnil : line = []
      · subst hnil
        rfl
      · have hw := window?_of_size_eq hnil heq
        exact wrap_eq_singleton_iff.mpr (.inr (firstPiece?_of_solid hw heq hsolid))
    · exact wrap_singleton o c

/-- A blank in the line does not matter if a comma that ends it is preferred. -/
example : Solid ⟨4, [',', ' '], true⟩ ['a', ' ', 'b', ','] := by decide

/-- A line that fills the width is cut at a blank. -/
theorem wrap_full_line :
    ¬ ∀ (o : WrapOptions) (line : List Char), (Utf8.encode line).length ≤ o.width →
      wrap o line = [⟨line, []⟩] := by
  intro h
  exact absurd (h ⟨5, [' '], true⟩ ['a', 'b', ' ', 'c', 'd'] (by decide)) (by decide +kernel)

/-! ## Pieces wrapped again -/

namespace Wrap

variable {o : WrapOptions} {text v w rest : List Char} {p : Piece}

theorem window?_of_prefix (hw : window? o text = some w) (hv : v <+: text) (hwv : w <+: v) :
    window? o v = some w := by
  obtain ⟨-, hne, hsize, hmin⟩ := of_window? hw
  apply window?_eq_some hwv hne hsize
  intro u hu
  exact hmin u (hu.trans hv)

theorem firstPiece?_text (h : firstPiece? o text = some (p, rest)) :
    firstPiece? o p.text = none ∨ firstPiece? o p.text = some (⟨p.text, []⟩, []) := by
  have hpre : p.text <+: text := ⟨p.delimiter ++ rest, by
    rw [← List.append_assoc, append_of_firstPiece? h]⟩
  have hne := text_ne_nil_of_firstPiece? h
  by_cases hsize : size p.text < o.width
  · exact .inl (firstPiece?_of_size_lt hsize)
  · right
    obtain ⟨w, tail, hw, -, rfl, -⟩ := of_firstPiece? h
    -- The window is reached within the piece, so that it is cut at the same place.
    have hwin := (of_window? hw).2.2.2 _ hpre hne (Nat.le_of_not_lt hsize)
    have hw' := window?_of_prefix hw hpre hwin
    obtain ⟨run, htext, htaken, hpiece, -⟩ := text_pieceOf o (cut o w) tail
    rw [htext] at hw' ⊢
    exact firstPiece?_of_taken hw' rfl htaken hpiece

end Wrap

/-- **Pieces are not cut again**: wrapping the text of a piece in the same way gives this text as
the only piece, and no delimiters beside it. -/
theorem wrap_piece {o : WrapOptions} {line : List Char} {p : Piece} (hp : p ∈ wrap o line) :
    wrap o p.text = [⟨p.text, []⟩] := by
  apply wrap_eq_singleton_iff.mpr
  rcases of_mem_wrap hp with ⟨ahead, rest, h⟩ | ⟨h, -⟩
  · exact firstPiece?_text h
  · exact .inl h

/-- A piece that two blanks fill up to the width. -/
theorem wrap_piece_full :
    let o : WrapOptions := ⟨4, [' '], true⟩
    ⟨['é', ' ', ' '], []⟩ ∈ wrap o ['é', ' ', ' ', 'c', 'd', 'e', 'f'] ∧
      wrap o ['é', ' ', ' '] = [⟨['é', ' ', ' '], []⟩] := by
  intro o
  have hp : ⟨['é', ' ', ' '], []⟩ ∈ wrap o ['é', ' ', ' ', 'c', 'd', 'e', 'f'] := by decide +kernel
  exact ⟨hp, wrap_piece hp⟩

end Coprocess
