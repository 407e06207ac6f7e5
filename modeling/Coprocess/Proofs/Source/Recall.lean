import Coprocess.Proofs.Source.Parcels
import Mathlib.Data.Finset.Card
import Mathlib.Data.List.Forall2

/-!
# What a cache recalls

A cache sends the first line with each key, and makes the unit of each line of the answer to the
first line with its key.

* `firsts`: the first of some lines with each key, in order;
* `replies`: the answers of a child that may remember what it was sent before;
* `Recalls`: the unit that belongs to a line;
* `Source.payloads_cache`, `Source.lastKeys`: what a cache sends, and the keys it has seen then;
* **`Source.recalls_cache`**: the units it makes of the answers.
-/

namespace Coprocess

open Descriptor (assembleAll)

/-! ## First lines -/

/-- The first of the lines with each key, in order. -/
def firsts (key : CacheKey) (ls : List Bytes) : List Bytes :=
  ls.eraseDupsBy fun line earlier => decide (key.of line = key.of earlier)

/-- The first of the lines with each key that was not seen before. -/
def unseen (key : CacheKey) (seen ls : List Bytes) : List Bytes :=
  firsts key (ls.filter fun line => key.of line ∉ seen)

section

variable {key : CacheKey} {seen ls : List Bytes} {line : Bytes}

theorem unseen_start (key : CacheKey) (ls : List Bytes) : unseen key [] ls = firsts key ls := by
  simp [unseen]

theorem unseen_nil (key : CacheKey) (seen : List Bytes) : unseen key seen [] = [] := rfl

theorem unseen_old (h : key.of line ∈ seen) :
    unseen key seen (line :: ls) = unseen key seen ls := by
  simp [unseen, h]

theorem unseen_new (h : key.of line ∉ seen) :
    unseen key seen (line :: ls) = line :: unseen key (seen ++ [key.of line]) ls := by
  unfold unseen firsts
  rw [List.filter_cons_of_pos (by simpa using h), List.eraseDupsBy_cons, List.filter_filter]
  congr 3
  funext l
  simp [and_comm]

theorem keys_unseen (key : CacheKey) (seen ls : List Bytes) :
    ((unseen key seen ls).map key.of).Nodup ∧
      ∀ k, k ∈ (unseen key seen ls).map key.of ↔ k ∈ ls.map key.of ∧ k ∉ seen := by
  induction ls generalizing seen with
  | nil => simp [unseen_nil]
  | cons line ls ih =>
    by_cases h : key.of line ∈ seen
    · rw [unseen_old h]
      obtain ⟨hd, hm⟩ := ih seen
      refine ⟨hd, fun k => ?_⟩
      rw [hm, List.map_cons, List.mem_cons]
      constructor
      · exact fun ⟨hk, hn⟩ => ⟨.inr hk, hn⟩
      · rintro ⟨rfl | hk, hn⟩
        · exact absurd h hn
        · exact ⟨hk, hn⟩
    · rw [unseen_new h]
      obtain ⟨hd, hm⟩ := ih (seen ++ [key.of line])
      rw [List.map_cons, List.map_cons, List.nodup_cons]
      refine ⟨⟨fun hk => ?_, hd⟩, fun k => ?_⟩
      · exact ((hm _).mp hk).2 (by simp)
      · rw [List.mem_cons, List.mem_cons, hm]
        by_cases hk : k = key.of line
        · simp [hk, h]
        · simp [hk]

theorem mem_of_mem_unseen (h : line ∈ unseen key seen ls) : line ∈ ls := by
  induction ls generalizing seen with
  | nil => exact h
  | cons l ls ih =>
    by_cases hl : key.of l ∈ seen
    · rw [unseen_old hl] at h
      exact List.mem_cons_of_mem l (ih h)
    · rw [unseen_new hl] at h
      rcases List.mem_cons.mp h with rfl | h
      · exact List.mem_cons_self
      · exact List.mem_cons_of_mem l (ih h)

theorem length_firsts (key : CacheKey) (ls : List Bytes) :
    (firsts key ls).length = (ls.map key.of).toFinset.card := by
  obtain ⟨hd, hm⟩ := keys_unseen key [] ls
  rw [unseen_start] at hd hm
  rw [← List.length_map key.of, ← List.toFinset_card_of_nodup hd]
  congr 1
  ext k
  simp [hm]

end

/-! ## Answers -/

/-- The answers to lines, each made of the line and of all lines before it. -/
def replies (answer : List Bytes → Bytes → Bytes) (before : List Bytes) : List Bytes → List Bytes
  | [] => []
  | line :: ls => answer before line :: replies answer (before ++ [line]) ls

section

variable {answer : List Bytes → Bytes → Bytes}

theorem replies_append (before ls more : List Bytes) :
    replies answer before (ls ++ more) =
      replies answer before ls ++ replies answer (before ++ ls) more := by
  induction ls generalizing before with
  | nil => simp [replies]
  | cons line ls ih => simp [replies, ih]

theorem length_replies (before ls : List Bytes) :
    (replies answer before ls).length = ls.length := by
  induction ls generalizing before with
  | nil => rfl
  | cons line ls ih => simp [replies, ih]

theorem not_mem_replies {b : UInt8} {before ls : List Bytes} {reply : Bytes}
    (h : ∀ before line, b ∉ line → b ∉ answer before line) (hls : ∀ line ∈ ls, b ∉ line)
    (hr : reply ∈ replies answer before ls) : b ∉ reply := by
  induction ls generalizing before with
  | nil => cases hr
  | cons line ls ih =>
    rcases List.mem_cons.mp hr with rfl | hr
    · exact h before line (hls line List.mem_cons_self)
    · exact ih (fun l hl => hls l (List.mem_cons_of_mem line hl)) hr

theorem getElem?_replies (before ls after : List Bytes) (line : Bytes) :
    (replies answer before (ls ++ line :: after))[ls.length]? =
      some (answer (before ++ ls) line) := by
  rw [replies_append, List.getElem?_append_right (by rw [length_replies]), length_replies,
    Nat.sub_self]
  rfl

end

/-- The answer to the first line that was sent with the key of `line`. -/
def Recalls (key : CacheKey) (answer : List Bytes → Bytes → Bytes) (sent : List Bytes)
    (line unit : Bytes) : Prop :=
  ∃ before first after, sent = before ++ first :: after ∧ key.of first = key.of line ∧
    unit = answer before first

/-- A key that is the whole line and answers that depend on the line alone: each line has its own
answer. -/
theorem units_of_whole {key : CacheKey} {answer : List Bytes → Bytes → Bytes} {f : Bytes → Bytes}
    {sent ls units : List Bytes} (h : List.Forall₂ (Recalls key answer sent) ls units)
    (hkey : key.selection = none) (hf : ∀ before line, answer before line = f line) :
    units = ls.map f := by
  induction h with
  | nil => rfl
  | cons hr _ ih =>
    obtain ⟨before, first, after, -, hfirst, rfl⟩ := hr
    simp only [CacheKey.of, hkey] at hfirst
    rw [List.map_cons, ih, hf, hfirst]

/-! ## Cached units -/

theorem Slots.get?_fill_next {slots : Slots} {kept : List Bytes}
    (h : ∀ i, slots.get? i = kept[i]?) (reply : Bytes) (i : Nat) :
    (slots.fill kept.length reply).get? i = (kept ++ [reply])[i]? := by
  rw [get?_fill, h, h]
  split_ifs with hi
  · rw [← hi, List.getElem?_concat_length, List.getElem?_eq_none (Nat.le_refl _)]
    rfl
  · by_cases hlt : i < kept.length
    · rw [List.getElem?_append_left hlt]
    · rw [List.getElem?_eq_none (by omega), List.getElem?_eq_none]
      rw [List.length_append, List.length_singleton]
      omega

theorem cached_kept {slots : Slots} {slot : Nat} {unit : Bytes} (h : slots.get? slot = some unit) :
    Descriptor.expected slots (.cached slot) = 0 ∧
      Descriptor.assemble [] slots (.cached slot) = (unit, slots) := by
  simp [Descriptor.expected, Descriptor.assemble, Slots.fill, h]

theorem cached_fresh {slots : Slots} {slot : Nat} (unit : Bytes) (h : slots.get? slot = none) :
    Descriptor.expected slots (.cached slot) = 1 ∧
      Descriptor.assemble [unit] slots (.cached slot) = (unit, slots.fill slot unit) := by
  simp [Descriptor.expected, Descriptor.assemble, Slots.get?_fill, h]

namespace Source

section

variable {key : CacheKey} {s : Source}

theorem fault?_cache (hs : s.kind = .cache key) : s.fault? = none := by
  refine fault?_eq_none fun line _ keys unit => ?_
  rw [hs, describe]
  split
  · exact ⟨_, _, rfl⟩
  · exact ⟨_, _, rfl⟩

/-- **A cache sends the first line with each key.** -/
theorem payloads_cache (hs : s.kind = .cache key) :
    payloads s.parcels = (unseen key s.keys (lines s.input)).flatMap (· ++ [lf]) := by
  induction s using line_by_line with
  | nil s hi hp => simp [hi, hp, unseen_nil]
  | line s s' line p hl hlines hd hkind hp _ ih =>
    rw [hp, payloads_cons, ih (hkind.trans hs), hlines]
    rw [hs] at hd
    rcases describe_cache key s.keys (s.read + 1) line with ⟨slot, -, hslot, he⟩ | ⟨hnew, he⟩
    · obtain ⟨hp, hk⟩ := Prod.mk.inj (hd.symm.trans he)
      cases hp
      rw [hk, unseen_old (List.mem_of_getElem? hslot)]
      rfl
    · obtain ⟨hp, hk⟩ := Prod.mk.inj (hd.symm.trans he)
      cases hp
      rw [hk, unseen_new hnew, List.flatMap_cons]
  | malformed s e h => cases h.symm.trans (fault?_cache hs)

/-- The keys that a cache has seen when its input is read to the end. -/
def lastKeys (key : CacheKey) (s : Source) : List Bytes :=
  s.keys ++ (unseen key s.keys (lines s.input)).map key.of

theorem lastKeys_next {s' : Source} {r : Except Failure Parcel} (hs : s.kind = .cache key)
    (h : s.next = some (r, s')) : s'.lastKeys key = s.lastKeys key := by
  obtain ⟨line, -, hlines, hd, -⟩ := next_eq_some h
  rw [hs] at hd
  unfold lastKeys
  rw [hlines]
  rcases describe_cache key s.keys (s.read + 1) line with ⟨slot, -, hslot, he⟩ | ⟨hnew, he⟩
  · rw [(Prod.mk.inj (hd.symm.trans he)).2, unseen_old (List.mem_of_getElem? hslot)]
  · rw [(Prod.mk.inj (hd.symm.trans he)).2, unseen_new hnew]
    simp

/-- **Each unit is the answer to the first line with its key.** The slots hold the answers to the
lines in `before`, whose keys are those that the source has seen. -/
theorem recalls_cache {answer : List Bytes → Bytes → Bytes} {before : List Bytes} {slots : Slots}
    (hs : s.kind = .cache key) (hkeys : s.keys = before.map key.of)
    (hslots : ∀ i, slots.get? i = (replies answer [] before)[i]?) :
    List.Forall₂
      (Recalls key answer (before ++ unseen key s.keys (lines s.input)))
      (lines s.input)
      (assembleAll (descriptors s.parcels)
        (replies answer before (unseen key s.keys (lines s.input))) slots).1 := by
  induction s using line_by_line generalizing before slots with
  | nil s hi hp =>
    rw [hi, hp, lines_nil]
    exact .nil
  | line s s' line p hl hlines hd hkind hp _ ih =>
    rw [hs] at hd
    simp only [hp, hlines, List.map_cons, assembleAll]
    rcases describe_cache key s.keys (s.read + 1) line with ⟨slot, hlt, hslot, he⟩ | ⟨hnew, he⟩
    · obtain ⟨hp, hk⟩ := Prod.mk.inj (hd.symm.trans he)
      cases hp
      rw [hkeys, List.length_map] at hlt
      -- The line with this key that was sent, and those sent before it.
      obtain ⟨front, first, back, rfl, rfl⟩ : ∃ front first back,
          before = front ++ first :: back ∧ slot = front.length :=
        ⟨before.take slot, before[slot], before.drop (slot + 1), by simp,
          (List.length_take_of_le (Nat.le_of_lt hlt)).symm⟩
      have hfirst : key.of first = key.of line := by
        rw [hkeys] at hslot
        simpa using hslot
      have hkept : slots.get? front.length = some (answer front first) := by
        rw [hslots, getElem?_replies, List.nil_append]
      obtain ⟨hexp, hunit⟩ := cached_kept hkept
      rw [unseen_old (List.mem_of_getElem? hslot)]
      simp only [hexp, List.take_zero, List.drop_zero, hunit]
      refine .cons ⟨front, first, back ++ unseen key s.keys (lines s'.input), ?_, hfirst, rfl⟩ ?_
      · rw [List.append_assoc, List.cons_append]
      · rw [← hk]
        exact ih (hkind.trans hs) (hk.trans hkeys) hslots
    · obtain ⟨hp, hk⟩ := Prod.mk.inj (hd.symm.trans he)
      cases hp
      have hempty : slots.get? s.keys.length = none := by
        rw [hslots, hkeys, List.length_map, List.getElem?_eq_none (by rw [length_replies])]
      obtain ⟨hexp, hunit⟩ := cached_fresh (answer before line) hempty
      rw [unseen_new hnew, replies]
      simp only [hexp, List.take_succ_cons, List.take_zero, List.drop_succ_cons, List.drop_zero,
        hunit]
      have hkeys' : s'.keys = (before ++ [line]).map key.of := by
        rw [hk, hkeys, List.map_append, List.map_singleton]
      have hslots' (i : Nat) : (slots.fill s.keys.length (answer before line)).get? i =
          (replies answer [] (before ++ [line]))[i]? := by
        have hlen : s.keys.length = (replies answer [] before).length := by
          rw [length_replies, hkeys, List.length_map]
        rw [replies_append, hlen]
        exact Slots.get?_fill_next hslots (answer before line) i
      have hrest := ih (hkind.trans hs) hkeys' hslots'
      rw [hk, List.append_assoc, List.singleton_append] at hrest
      exact .cons ⟨before, line, _, rfl, rfl, rfl⟩ hrest
  | malformed s e h => cases h.symm.trans (fault?_cache hs)

end

end Source

end Coprocess
