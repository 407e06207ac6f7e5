import Mathlib.Data.List.Basic
import Mathlib.Data.List.Forall2
import Mathlib.Data.List.Perm.Basic
import Mathlib.Data.List.TakeWhile

/-!
# Lists put together from others

A list whose items have keys is known up to their order by what has each of the keys.

* `perm_flatMap_filter`: the items, key by key;
* `pairwise_of_filter`: what holds among items of one key;
* **`exists_reordering`**: items in an order of which the keys are known;
* `append_perm`, `zip_of_length`: what is added to a part of a list, and a list beside the beginning
  of another one;
* `getElem?_set_cases`, `filterMap_set_perm`, `filterMap_set_eq`: what an item that is replaced
  contributes;
* `exists_of_forall₂`: a member of one of two lists that correspond;
* `length_le_length_flatten`: lists that are not empty are no more than their items.
-/

namespace Coprocess

section Keys

variable {α κ : Type} [DecidableEq κ]

theorem pairwise_of_filter (key : α → κ) {R : α → α → Prop} {l : List α}
    (h : ∀ k, (l.filter (key · = k)).Pairwise R) :
    l.Pairwise fun a b => key a = key b → R a b := by
  induction l with
  | nil => exact List.Pairwise.nil
  | cons a l ih =>
    have htail (k : κ) : (l.filter (key · = k)).Pairwise R :=
      (h k).sublist ((List.sublist_cons_self a l).filter _)
    refine List.pairwise_cons.mpr ⟨fun b hb hk => ?_, ih htail⟩
    have hhead := h (key a)
    rw [List.filter_cons_of_pos (by simp)] at hhead
    exact (List.pairwise_cons.mp hhead).1 b (List.mem_filter.mpr ⟨hb, by simp [hk]⟩)

theorem perm_flatMap_filter (key : α → Nat) (l : List α) {n : Nat} (h : ∀ a ∈ l, key a < n) :
    l.Perm ((List.range n).flatMap fun k => l.filter (key · = k)) := by
  induction n generalizing l with
  | zero =>
    cases l with
    | nil => exact .refl _
    | cons a l => exact absurd (h a List.mem_cons_self) (Nat.not_lt_zero _)
  | succ n ih =>
    have hlow : ∀ a ∈ l.filter (key · < n), key a < n := fun a ha => by
      simpa using (List.mem_filter.mp ha).2
    have hsame (k : Nat) (hk : k ∈ List.range n) :
        (l.filter (key · < n)).filter (key · = k) = l.filter (key · = k) := by
      rw [List.filter_filter]
      refine List.filter_congr fun a _ => ?_
      have hkn := List.mem_range.mp hk
      by_cases ha : key a = k
      · simp [ha, hkn]
      · simp [ha]
    have hhigh : l.filter (fun a => !decide (key a < n)) = l.filter (key · = n) := by
      refine List.filter_congr fun a ha => ?_
      have hlt := h a ha
      by_cases hn : key a = n
      · simp [hn]
      · have : key a < n := by omega
        simp [hn, this]
    have hsplit := (List.filter_append_perm (fun a => decide (key a < n)) l).symm
    rw [hhigh] at hsplit
    rw [List.range_succ, List.flatMap_append, List.flatMap_singleton]
    refine hsplit.trans ((ih _ hlow).append_right _ |>.trans ?_)
    rw [List.flatMap_congr hsame]

/-- Items can be put in every order of the keys in which each key has its items in their order. -/
theorem exists_reordering {β : Type} (value : α → β) {items : List (α × κ)} {order : List (κ × β)}
    (h : ∀ k, (order.filter (·.1 = k)).map (·.2) =
      (items.filter (·.2 = k)).map fun a => value a.1) :
    ∃ result : List (α × κ), result.map (fun a => (a.2, value a.1)) = order ∧ result.Perm items ∧
      ∀ k, result.filter (·.2 = k) = items.filter (·.2 = k) := by
  induction order generalizing items with
  | nil =>
    have hnil : items = [] := by
      cases items with
      | nil => rfl
      | cons a items => simpa using h a.2
    exact ⟨[], rfl, by rw [hnil], by simp [hnil]⟩
  | cons e order ih =>
    obtain ⟨k, b⟩ := e
    have hk := h k
    rw [List.filter_cons_of_pos (by simp), List.map_cons, eq_comm] at hk
    obtain ⟨a, rest, hitems, hb, hrest⟩ := List.map_eq_cons_iff.mp hk
    obtain ⟨before, after, rfl, hbefore, ha, hafter⟩ := List.filter_eq_cons_iff.mp hitems
    have hka : a.2 = k := by simpa using ha
    -- The first item of this key comes next, and the others stay as they are.
    have hothers (k' : κ) : ((before ++ a :: after).filter (·.2 = k')) =
        if k' = k then a :: (before ++ after).filter (·.2 = k')
        else (before ++ after).filter (·.2 = k') := by
      have hnone : before.filter (·.2 = k) = [] := by
        refine List.filter_eq_nil_iff.mpr fun x hx => ?_
        simpa using hbefore x hx
      split_ifs with he
      · subst he
        rw [List.filter_append, List.filter_append, hnone, List.filter_cons_of_pos (by simp [hka])]
        rfl
      · have hne : ¬ a.2 = k' := fun hk' => he (hk' ▸ hka)
        rw [List.filter_append, List.filter_append, List.filter_cons_of_neg (by simpa using hne)]
    obtain ⟨result, hresult, hperm, hfilter⟩ := @ih (before ++ after) fun k' => by
      have hk' := h k'
      rw [hothers] at hk'
      by_cases he : k' = k
      · subst he
        rw [if_pos rfl, List.filter_cons_of_pos (by simp), List.map_cons, List.map_cons] at hk'
        exact (List.cons.inj hk').2
      · rw [if_neg he, List.filter_cons_of_neg (by simp [Ne.symm he])] at hk'
        exact hk'
    refine ⟨a :: result, ?_, (hperm.cons a).trans List.perm_middle.symm, fun k' => ?_⟩
    · rw [List.map_cons, hresult, hka, hb]
    · rw [hothers, List.filter_cons, hfilter]
      by_cases he : k' = k
      · simp [he, hka]
      · simp [hka, he, Ne.symm he]

end Keys

theorem append_perm {α : Type} {a a' added : List α} (h : a'.Perm (a ++ added)) (rest : List α) :
    ((a ++ rest) ++ added).Perm (a' ++ rest) := by
  rw [List.append_assoc]
  have hswap : (a ++ (rest ++ added)).Perm (a ++ added ++ rest) := by
    rw [List.append_assoc a added]
    exact List.perm_append_comm.append_left a
  exact hswap.trans (h.symm.append_right rest)

theorem zip_of_length {α β : Type} {front : List α} {l : List β} (h : front.length = l.length)
    (rest : List α) : (front ++ rest).zip l = front.zip l := by
  conv_lhs => rw [← List.append_nil l, List.zip_append h, List.zip_nil_right, List.append_nil]

section Replacing

variable {α β : Type} {f : α → Option β} {l : List α} {n : Nat} {a b : α}

theorem getElem?_set_cases {k : Nat} {c : α} (h : (l.set n b)[k]? = some c) :
    k = n ∧ c = b ∨ k ≠ n ∧ l[k]? = some c := by
  by_cases hk : k = n
  · subst hk
    have hlt : k < l.length := by
      have := (List.getElem?_eq_some_iff.mp h).1
      rwa [List.length_set] at this
    rw [List.getElem?_set_self hlt] at h
    exact .inl ⟨rfl, (Option.some.inj h).symm⟩
  · rw [List.getElem?_set_ne (Ne.symm hk)] at h
    exact .inr ⟨hk, h⟩

theorem filterMap_set_eq (ha : l[n]? = some a) (h : f a = f b) :
    (l.set n b).filterMap f = l.filterMap f := by
  obtain ⟨hn, ha⟩ := List.getElem?_eq_some_iff.mp ha
  conv_rhs => rw [← List.take_append_drop n l, List.drop_eq_getElem_cons hn, ha]
  rw [List.set_eq_take_append_cons_drop, if_pos hn, List.filterMap_append, List.filterMap_append,
    List.filterMap_cons, List.filterMap_cons, h]

theorem filterMap_set_perm (ha : l[n]? = some a) (h : f a = none) :
    ((l.set n b).filterMap f).Perm (l.filterMap f ++ (f b).toList) := by
  obtain ⟨hn, ha⟩ := List.getElem?_eq_some_iff.mp ha
  conv_rhs => rw [← List.take_append_drop n l, List.drop_eq_getElem_cons hn, ha]
  rw [List.set_eq_take_append_cons_drop, if_pos hn, List.filterMap_append, List.filterMap_append,
    List.filterMap_cons_none h, List.filterMap_cons, List.append_assoc]
  refine List.Perm.append_left _ ?_
  cases f b with
  | none => rw [Option.toList_none, List.append_nil]
  | some c => exact (List.perm_append_singleton c _).symm

end Replacing

theorem exists_of_forall₂ {α β : Type} {R : α → β → Prop} {as : List α} {bs : List β} {a : α}
    (h : List.Forall₂ R as bs) (ha : a ∈ as) : ∃ b ∈ bs, R a b := by
  induction h with
  | nil => cases ha
  | @cons a' b as bs hr _ ih =>
    rcases List.mem_cons.mp ha with rfl | ha
    · exact ⟨b, List.mem_cons_self, hr⟩
    · obtain ⟨c, hc, hr⟩ := ih ha
      exact ⟨c, List.mem_cons_of_mem b hc, hr⟩

theorem length_le_length_flatten {α : Type} {ls : List (List α)} (h : ∀ l ∈ ls, l ≠ []) :
    ls.length ≤ ls.flatten.length := by
  induction ls with
  | nil => exact Nat.le_refl 0
  | cons l ls ih =>
    obtain ⟨hl, hls⟩ := List.forall_mem_cons.mp h
    have hpos := List.length_pos_iff.mpr hl
    have hrest := ih hls
    rw [List.flatten_cons, List.length_append, List.length_cons]
    omega

end Coprocess
