import Coprocess.Proofs.Source.Parcels

/-!
# As many answers as questions

What a unit asks of the child is known when its turn comes: a repeat asks for nothing because the
unit that was sent for its key has been put together by then.

* `Source.of_cached_unit`: which lines a cache sends nothing for;
* **`Source.asks_as_sent`**: each unit asks for as many answers as it sends lines, and only a repeat
  sends nothing.
-/

namespace Coprocess.Source

open Descriptor (demands assembleAll)

variable {s : Source} {i : Nat} {p : Parcel}

/-- **A cache sends nothing for a line** exactly if it has seen the key, or a line before it has
it. -/
theorem of_cached_unit {key : CacheKey} (hs : s.kind = .cache key) (h : s.units[i]? = some p) :
    ∃ line, (lines s.input)[i]? = some line ∧
      (p.payload = [] ↔
        key.of line ∈ s.keys ∨ key.of line ∈ ((lines s.input).take i).map key.of) := by
  induction s using units.induct generalizing i with
  | case1 s q s' hn ih =>
    obtain ⟨first, -, hlines, hd, hkind⟩ := next_eq_some hn
    rw [units_of_ok hn] at h
    rw [hs] at hd
    -- Either way the key of the line is among those that are seen afterwards.
    obtain ⟨hkeys, hnil⟩ : (∀ k, k ∈ s'.keys ↔ k ∈ s.keys ∨ k = key.of first) ∧
        (q.payload = [] ↔ key.of first ∈ s.keys) := by
      rcases describe_cache key s.keys (s.read + 1) first with ⟨slot, -, hslot, he⟩ | ⟨hnew, he⟩
      · obtain ⟨hq, hk⟩ := Prod.mk.inj (hd.symm.trans he)
        cases hq
        have hseen := List.mem_of_getElem? hslot
        refine ⟨fun k => ?_, iff_of_true rfl hseen⟩
        rw [hk]
        exact ⟨.inl, fun hor => hor.elim id fun e => e ▸ hseen⟩
      · obtain ⟨hq, hk⟩ := Prod.mk.inj (hd.symm.trans he)
        cases hq
        refine ⟨fun k => ?_, iff_of_false ?_ hnew⟩
        · rw [hk, List.mem_append, List.mem_singleton]
        · exact List.append_ne_nil_of_right_ne_nil first (List.cons_ne_nil lf [])
    rw [hlines]
    cases i with
    | zero =>
      cases h
      refine ⟨first, rfl, ?_⟩
      rw [hnil]
      simp
    | succ i =>
      obtain ⟨line, hline, hiff⟩ := ih (hkind.trans hs) h
      refine ⟨line, hline, ?_⟩
      rw [hiff, hkeys, List.take_succ_cons, List.map_cons, List.mem_cons, or_assoc]
  | case2 s e s' hn ih =>
    obtain ⟨line, -, -, hd, -⟩ := next_eq_some hn
    rw [hs] at hd
    rcases describe_cache key s.keys (s.read + 1) line with ⟨_, -, -, he⟩ | ⟨-, he⟩ <;>
      cases hd.symm.trans he
  | case3 s hn =>
    rw [units_of_none hn] at h
    cases h

/-- **Every unit asks for exactly as many answers as it sends lines**, whatever the units before it
were put together of: its lines are whole, and it sends none exactly if it repeats the key of a line
before it. The lines of any number of units are as many as these units take in turn, so that a child
with one answer for each line that it gets leaves none of them short and none with too many. A
source that stops at a malformed line has the same units up to there. -/
theorem asks_as_sent (s : Source) (hs : s.keys = []) :
    s.parcels <+: s.units ∧
    (∀ (answers : List Bytes) (i : Nat) (p : Parcel), s.units[i]? = some p →
      p.descriptor.expected (assembleAll (descriptors (s.units.take i)) answers {}).2 =
        countLf p.payload ∧
      Terminated p.payload ∧
      (p.payload = [] ↔ ∃ key line, s.kind = .cache key ∧ (lines s.input)[i]? = some line ∧
        key.of line ∈ ((lines s.input).take i).map key.of)) ∧
    ∀ i, (demands (descriptors (s.units.take i)) {}).sum =
      (lines (payloads (s.units.take i))).length := by
  have hk : Keyed s.keys {} := hs ▸ keyed_nil
  refine ⟨parcels_prefix_units s, fun answers i p hp => ?_, fun i => ?_⟩
  · have hfair := fair_units hk answers hp
    refine ⟨hfair.count.symm, hfair.terminated, fun hnil => ?_, ?_⟩
    · cases hkind : s.kind with
      | cache key =>
        obtain ⟨line, hline, hiff⟩ := of_cached_unit hkind hp
        refine ⟨key, line, rfl, hline, (hiff.mp hnil).resolve_left ?_⟩
        rw [hs]
        exact List.not_mem_nil
      | _ =>
        have hsends : s.kind.Sends := by
          rw [hkind]
          trivial
        exact absurd hnil (payload_ne_nil_of_mem_units hsends p (List.mem_of_getElem? hp))
    · rintro ⟨key, line, hkind, hline, hmem⟩
      obtain ⟨line', hline', hiff⟩ := of_cached_unit hkind hp
      obtain rfl := Option.some.inj (hline.symm.trans hline')
      exact hiff.mpr (.inr hmem)
  · obtain ⟨hterm, hsum⟩ := sum_demands_units hk i
    rw [hsum, length_lines_of_terminated hterm]

/-- The third of three lines is the first one again: its unit asks for nothing once the answers to
the first two are in. -/
theorem asks_as_sent_repeat :
    let s : Source := { kind := .cache {}, input := [97, lf, 98, lf, 97, lf] }
    s.keys = [] ∧ s.units[2]? = some ⟨.cached 0, []⟩ ∧
      Descriptor.expected (assembleAll (descriptors (s.units.take 2)) [[88], [89]] {}).2
        (.cached 0) = 0 ∧
      ∃ key line, s.kind = .cache key ∧ (lines s.input)[2]? = some line ∧
        key.of line ∈ ((lines s.input).take 2).map key.of := by
  intro s
  have hfirst : s.next = some (.ok ⟨.cached 0, [97, lf]⟩,
      ⟨.cache {}, [98, lf, 97, lf], 1, [[97]]⟩) := rfl
  have hsecond : next ⟨.cache {}, [98, lf, 97, lf], 1, [[97]]⟩ =
      some (.ok ⟨.cached 1, [98, lf]⟩, ⟨.cache {}, [97, lf], 2, [[97], [98]]⟩) := rfl
  have hthird : next ⟨.cache {}, [97, lf], 2, [[97], [98]]⟩ =
      some (.ok ⟨.cached 0, []⟩, ⟨.cache {}, [], 3, [[97], [98]]⟩) := rfl
  have hunit : s.units[2]? = some ⟨.cached 0, []⟩ := by
    rw [units_of_ok hfirst, units_of_ok hsecond, units_of_ok hthird]
    rfl
  obtain ⟨hexpected, -, hnil⟩ := (asks_as_sent s rfl).2.1 [[88], [89]] 2 _ hunit
  exact ⟨rfl, hunit, hexpected, hnil.mp rfl⟩

end Coprocess.Source
