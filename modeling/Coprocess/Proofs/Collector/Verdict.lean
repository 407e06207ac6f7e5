import Coprocess.Proofs.Collector.Collecting
import Coprocess.Proofs.Collector.Progress

/-!
# The verdict on a child

A collector finds all descriptors in its queue, and the output of the child arrives bit by bit.

* `Trial`: a collector, its queue, its pipe, and the output that has not arrived yet;
* `Trial.Step`, `Trial.Run`: any order of reading and arriving;
* `Trial.Inv`: what holds on the way;
* **`Trial.run_work`**, **`Trial.progress`**: every run ends, and only by the collector's return;
* **`Trial.verdict_exact`**: which result it returns, and what it has written then.
-/

namespace Coprocess

/-- A collector before a child whose output is on its way. -/
structure Trial where
  collector : Collector
  queue : Queue Descriptor
  pipe : Pipe
  /-- The output that has not arrived yet. -/
  coming : Bytes

namespace Trial

open Collector (Ending queueOf)
open Descriptor (demands assembleAll)

/-- One step: of the collector, or some bytes arrive, or the output ends. -/
inductive Step : Trial → Trial → Prop
  | collect {t : Trial} {c : Collector} {q : Queue Descriptor} {p : Pipe}
      (h : t.collector.step t.queue t.pipe = some (c, q, p)) : Step t ⟨c, q, p, t.coming⟩
  | arrive {t : Trial} {count : Nat} {p : Pipe} (size : Nat) (hs : 0 < size) (hne : t.coming ≠ [])
      (h : t.pipe.write (t.coming.take size) = .moved count p) :
      Step t ⟨t.collector, t.queue, p, t.coming.drop count⟩
  | close {t : Trial} (hc : t.coming = []) (hw : t.pipe.writable = true) :
      Step t ⟨t.collector, t.queue, t.pipe.closeWriter, []⟩

/-- Some steps, one after the other. -/
inductive Run (s : Trial) : Nat → Trial → Prop
  | refl : Run s 0 s
  | step {n : Nat} {t u : Trial} (h : Run s n t) (hs : Step t u) : Run s (n + 1) u

/-- A collector at its start: the descriptors wait, and the whole output is to come through a pipe
with room for `capacity` bytes. -/
def start (sink : Sink) (slots : Slots) (units : List Descriptor) (ending : Ending)
    (capacity : Nat) (output : Bytes) : Trial :=
  ⟨{ sink, slots }, queueOf units ending, { capacity }, output⟩

/-- How many steps a trial may take. -/
def work (t : Trial) : Nat :=
  t.collector.work t.queue t.pipe + 3 * t.coming.length + if t.pipe.writable then 1 else 0

/-- What holds on the way: of the `output`, some bytes have arrived, and those `before` are read. -/
def Inv (sink₀ : Sink) (slots₀ : Slots) (log : List (Message Descriptor)) (output : Bytes)
    (t : Trial) : Prop :=
  (∃ taken before arrived, output = arrived ++ t.coming ∧
      t.collector.Inv sink₀ slots₀ taken log before arrived t.queue t.pipe) ∧
    (t.pipe.writable = false → t.coming = []) ∧ t.queue.producing = false ∧ 0 < t.pipe.capacity

section

variable {sink₀ : Sink} {slots₀ : Slots} {log : List (Message Descriptor)} {output : Bytes}
  {s t u : Trial} {n : Nat}

/-! ## Steps -/

theorem inv_start (sink : Sink) (slots : Slots) (units : List Descriptor) {ending : Ending}
    (he : ending ≠ .kept) {capacity : Nat} (hc : 0 < capacity) (output : Bytes) :
    (start sink slots units ending capacity output).Inv sink slots
      (queueOf units ending).waiting.toList output := by
  have hs := Collector.inv_start (q := queueOf units ending) (p := { capacity }) sink slots rfl rfl
  refine ⟨⟨[], [], [], rfl, hs⟩, ?_, ?_, hc⟩
  · intro h
    cases h
  · cases ending with
    | kept => exact absurd rfl he
    | _ => rfl

theorem step_inv (h : Step s t) (hinv : s.Inv sink₀ slots₀ log output) :
    t.Inv sink₀ slots₀ log output := by
  obtain ⟨⟨taken, before, arrived, ho, hc⟩, hw, hp, hcap⟩ := hinv
  cases h with
  | collect h =>
    have hf := Collector.step_progress h hc.stream.line
    obtain ⟨taken', before', hc'⟩ := Collector.step_inv h hc
    refine ⟨⟨taken', before', arrived, ho, hc'⟩, ?_, ?_, ?_⟩
    · intro hw'
      exact hw (hf.writable.symm.trans hw')
    · exact hf.producing.trans hp
    · exact hf.capacity ▸ hcap
  | arrive size hs hne h =>
    obtain ⟨rfl, rfl, hr, -⟩ := Pipe.write_moved h
    have hpart : (s.coming.take size).take s.pipe.room <+: s.coming :=
      (List.take_prefix _ _).trans (List.take_prefix _ _)
    have hw' : s.pipe.writable = true := by
      by_contra hn
      exact hne (hw (by simpa using hn))
    have hg := Collector.grows_write hw' hr ((s.coming.take size).take s.pipe.room)
    refine ⟨⟨taken, before, _, ?_, Collector.inv_output hc hg⟩, ?_, hp, hcap⟩
    · rw [List.append_assoc, List.prefix_iff_eq_append.mp hpart]
      exact ho
    · intro hn
      exact absurd (hw'.symm.trans hn) (by simp)
  | close hcoming hw =>
    have hc' := Collector.inv_output hc (Collector.grows_close s.pipe)
    rw [List.append_nil] at hc'
    refine ⟨⟨taken, before, arrived, ?_, hc'⟩, fun _ => rfl, hp, hcap⟩
    rw [ho, hcoming]

theorem run_inv (h : Run s n t) (hinv : s.Inv sink₀ slots₀ log output) :
    t.Inv sink₀ slots₀ log output := by
  induction h with
  | refl => exact hinv
  | step _ hs ih => exact step_inv hs ih

/-! ## Every run ends -/

theorem step_work (h : Step s t) (hinv : s.Inv sink₀ slots₀ log output) : t.work < s.work := by
  obtain ⟨⟨taken, before, arrived, ho, hc⟩, -, -, -⟩ := hinv
  cases h with
  | collect h =>
    have hf := Collector.step_progress h hc.stream.line
    have hlt := hf.work
    simp only [work, hf.writable]
    omega
  | arrive size hs hne h =>
    obtain ⟨rfl, rfl, hr, hroom⟩ := Pipe.write_moved h
    have hpos := List.length_pos_iff.mpr hne
    simp only [work, Collector.work, Pipe.content_append, List.length_append, List.length_drop,
      List.length_take]
    omega
  | close hcoming hw =>
    simp only [work, Collector.work, hcoming, hw, Pipe.content_closeWriter]
    simp [Pipe.closeWriter]

/-- **A run has no more steps than there is work.** -/
theorem run_work (h : Run s n t) (hinv : s.Inv sink₀ slots₀ log output) :
    n + t.work ≤ s.work := by
  induction h with
  | refl => exact Nat.le_of_eq (Nat.zero_add _)
  | step hr hs ih =>
    have := step_work hs (run_inv hr hinv)
    omega

/-- **A trial goes on until the collector has returned.** -/
theorem progress (hinv : t.Inv sink₀ slots₀ log output) (hn : t.collector.result? = none) :
    ∃ u, Step t u := by
  obtain ⟨⟨taken, before, arrived, ho, hc⟩, hw, hp, hcap⟩ := hinv
  cases hs : t.collector.step t.queue t.pipe with
  | some r => exact ⟨_, .collect hs⟩
  | none =>
    rcases Collector.step_none hs hc.stream.line with h | ⟨-, -, h⟩ | ⟨-, -, hcontent, hwr⟩
    · rw [hn] at h
      cases h
    · rw [hp] at h
      cases h
    · by_cases hcoming : t.coming = []
      · exact ⟨_, .close hcoming hwr⟩
      · -- The pipe is empty, so that there is room for a byte at least.
        have hroom : t.pipe.room ≠ 0 := by
          have : t.pipe.bytes.size = 0 := by simpa [Pipe.content] using hcontent
          rw [Pipe.room, this]
          omega
        have hr : t.pipe.readable = true := (hc.open hn).2
        rcases Writer.write_cases t.pipe (t.coming.take 1) with ⟨part, -, h⟩ | ⟨-, -, h⟩ | ⟨-, h⟩
        · exact ⟨_, .arrive 1 Nat.zero_lt_one hcoming h⟩
        · exact absurd h hroom
        · rw [hr] at h
          cases h

/-! ## Verdicts -/

/-- The sink has got the first `j` units, each made of its own lines of the output, and nothing
else. -/
def Written (sink₀ : Sink) (slots₀ : Slots) (units : List Descriptor) (output : Bytes) (j : Nat)
    (sink : Sink) : Prop :=
  sink.outlet.written = sink₀.outlet.written ++
    ((assembleAll (units.take j) (lines output) slots₀).1.map (Sink.render sink₀.format)).flatten

theorem written_of_holds {units done : List Descriptor} {old : List Bytes} {sink : Sink}
    (hd : done <+: units) (ho : old <+: lines output)
    (hs : (demands done slots₀).sum = old.length)
    (h : sink₀.Holds (Collector.built slots₀ done old) sink) :
    Written sink₀ slots₀ units output done.length sink := by
  obtain ⟨more, e⟩ := ho
  have ha := Descriptor.assembleAll_append_lines (Nat.le_of_eq hs) more
  unfold Written
  rw [h.written, Collector.built, ← List.prefix_iff_eq_take.mp hd, ← e, ha]

theorem items_queueOf (units : List Descriptor) (ending : Ending) :
    ∃ tail, (queueOf units ending).waiting.toList = units.map .item ++ tail ∧
      (∀ m ∈ tail, m = .finished) ∧ (tail = [] ↔ ending ≠ .finished) := by
  cases ending with
  | finished => exact ⟨[.finished], by simp [queueOf, Fifo.toList], by simp, by simp⟩
  | dropped | kept => exact ⟨[], by simp [queueOf, Fifo.toList], by simp, by simp⟩

section

variable {units : List Descriptor} {ending : Ending} {k m : Nat}

theorem Inv.of_ok (hinv : t.Inv sink₀ slots₀ (queueOf units ending).waiting.toList output)
    (hr : t.collector.result? = some (.ok m)) :
    ending = .finished ∧ m = units.length ∧ (demands units slots₀).sum = (lines output).length ∧
      Written sink₀ slots₀ units output units.length t.collector.sink ∧
      t.collector.sink.outlet.flushes = sink₀.outlet.flushes + 1 := by
  obtain ⟨⟨taken, before, arrived, ho, hc⟩, hw, -, -⟩ := hinv
  obtain ⟨hb, ⟨sink, hs, he⟩, hm, hend, hlog⟩ := hc.verdict hr
  obtain ⟨tail, hq, ht, htail⟩ := items_queueOf units ending
  rw [hq] at hlog
  obtain ⟨rfl, hne⟩ := eq_of_finished hlog ht
  have hbefore : before = output := by
    rw [ho, hw hend.1, List.append_nil, hc.stream.of_atEnd hend]
  rw [hbefore] at hb hs
  refine ⟨?_, hm, hb.lines, ?_, ?_⟩
  · by_contra hf
    exact hne (htail.mpr hf)
  · have := written_of_holds List.prefix_rfl List.prefix_rfl hb.lines hs
    rw [he]
    exact this
  · rw [he, ← hs.outlet.2.2]
    rfl

theorem Inv.of_under (hinv : t.Inv sink₀ slots₀ (queueOf units ending).waiting.toList output)
    (hr : t.collector.result? = some (.error (.underProduction k))) :
    (lines output).length < ((demands units slots₀).take k).sum ∧
      ((demands units slots₀).take (k - 1)).sum ≤ (lines output).length ∧ 0 < k ∧
      Written sink₀ slots₀ units output (k - 1) t.collector.sink ∧
      t.collector.sink.outlet.flushes = sink₀.outlet.flushes := by
  obtain ⟨⟨taken, before, arrived, ho, hc⟩, hw, -, -⟩ := hinv
  obtain ⟨⟨d, missing, ls, hp⟩, hk, hend, hlog⟩ := hc.verdict hr
  obtain ⟨tail, hq, ht, -⟩ := items_queueOf units ending
  rw [hq] at hlog
  have hbefore : before = output := by
    rw [ho, hw hend.1, List.append_nil, hc.stream.of_atEnd hend]
  rw [hbefore] at hp
  have hpre := prefix_of_items hlog ht
  have hlt := hp.lt
  obtain ⟨done, old, rfl, hg, hb, hs, -⟩ := hp
  have hdone : done <+: units := (List.prefix_append _ _).trans hpre
  have hk' : k - 1 = done.length := by simp [hk]
  rw [hk', ← Descriptor.demands_take, ← Descriptor.demands_take, hk,
    ← List.prefix_iff_eq_take.mp hpre, ← List.prefix_iff_eq_take.mp hdone]
  refine ⟨hlt, ?_, by simp, ?_, hs.outlet.2.2⟩
  · rw [hb.lines, hg, List.length_append]
    omega
  · exact written_of_holds hdone ⟨ls.reverse, hg.symm⟩ hb.lines hs

theorem Inv.of_over (hinv : t.Inv sink₀ slots₀ (queueOf units ending).waiting.toList output)
    (hr : t.collector.result? = some (.error (.overProduction k))) :
    k = units.length + 1 ∧ (demands units slots₀).sum < (lines output).length ∧
      (ending = .finished ∨ units ≠ []) ∧
      Written sink₀ slots₀ units output units.length t.collector.sink ∧
      t.collector.sink.outlet.flushes = sink₀.outlet.flushes := by
  obtain ⟨⟨taken, before, arrived, ho, hc⟩, hw, -, -⟩ := hinv
  obtain ⟨hb, hs, hk, hu, hlog⟩ := hc.verdict hr
  obtain ⟨tail, hq, ht, htail⟩ := items_queueOf units ending
  have he : taken = units ∧ (ending = .finished ∨ units ≠ []) := by
    rw [hq] at hlog
    rcases hlog with ⟨hlog, hne⟩ | hlog
    · obtain ⟨rfl, -⟩ := eq_of_items hlog ht
      exact ⟨rfl, .inr hne⟩
    · obtain ⟨rfl, hne⟩ := eq_of_finished hlog ht
      refine ⟨rfl, .inl ?_⟩
      by_contra hf
      exact hne (htail.mpr hf)
  obtain ⟨rfl, he⟩ := he
  refine ⟨hk, ?_, he, ?_, hs.outlet.2.2⟩
  · rw [hb.lines, ho]
    exact hc.stream.length_lt hu _
  · rw [ho]
    exact written_of_holds List.prefix_rfl (hc.stream.lines_prefix hw) hb.lines hs

theorem Inv.of_closed (hinv : t.Inv sink₀ slots₀ (queueOf units ending).waiting.toList output)
    (hr : t.collector.result? = some (.error .queueClosed)) :
    ending ≠ .finished ∧ (units = [] ∨ (demands units slots₀).sum = (lines output).length) ∧
      (demands units slots₀).sum ≤ (lines output).length ∧
      Written sink₀ slots₀ units output units.length t.collector.sink ∧
      t.collector.sink.outlet.flushes = sink₀.outlet.flushes := by
  obtain ⟨⟨taken, before, arrived, ho, hc⟩, hw, -, -⟩ := hinv
  obtain ⟨hb, hs, hlog, hend⟩ := hc.verdict hr
  obtain ⟨tail, hq, ht, htail⟩ := items_queueOf units ending
  rw [hq] at hlog
  obtain ⟨rfl, he⟩ := eq_of_items hlog ht
  have hpre : lines before <+: lines output := ho ▸ hc.stream.lines_prefix hw
  refine ⟨htail.mp he, hend.imp_right fun hend => ?_, ?_, ?_, hs.outlet.2.2⟩
  · rw [hb.lines, ho, hw hend.1, List.append_nil, hc.stream.of_atEnd hend]
  · rw [hb.lines]
    exact hpre.length_le
  · exact written_of_holds List.prefix_rfl hpre hb.lines hs

theorem Inv.failure (hinv : t.Inv sink₀ slots₀ (queueOf units ending).waiting.toList output)
    (hl : sink₀.outlet.limit = none) (hf : sink₀.outlet.flushFails = false) {e : Failure}
    (hr : t.collector.result? = some (.error e)) :
    (∃ k, e = .underProduction k) ∨ (∃ k, e = .overProduction k) ∨ e = .queueClosed := by
  obtain ⟨⟨taken, before, arrived, ho, hc⟩, -, -, -⟩ := hinv
  have hv := hc.verdict hr
  cases e with
  | underProduction k => exact .inl ⟨k, rfl⟩
  | overProduction k => exact .inr (.inl ⟨k, rfl⟩)
  | queueClosed => exact .inr (.inr rfl)
  | _ =>
    obtain ⟨-, hs, -⟩ := hv
    rw [hl, hf] at hs
    simp at hs

theorem Inv.going (hinv : t.Inv sink₀ slots₀ (queueOf units ending).waiting.toList output)
    (hn : t.collector.result? = none) :
    (∃ j ≤ units.length, Written sink₀ slots₀ units output j t.collector.sink) ∧
      t.collector.sink.outlet.flushes = sink₀.outlet.flushes := by
  obtain ⟨⟨taken, before, arrived, ho, hc⟩, hw, -, -⟩ := hinv
  obtain ⟨done, old, hd, hold, hsum, hs⟩ := hc.holds hn
  obtain ⟨tail, hq, ht, -⟩ := items_queueOf units ending
  have htaken : taken.map .item <+: (queueOf units ending).waiting.toList := hc.taken_prefix hn
  rw [hq] at htaken
  have hunits := hd.trans (prefix_of_items htaken ht)
  refine ⟨⟨done.length, hunits.length_le, ?_⟩, hs.outlet.2.2⟩
  exact written_of_holds hunits (hold.trans (ho ▸ hc.stream.lines_prefix hw)) hsum hs

theorem sum_take_le {j : Nat} (e : List Nat) (h : j ≤ k) : (e.take j).sum ≤ (e.take k).sum := by
  have hs := congrArg List.sum (List.take_append_drop j (e.take k))
  rw [List.sum_append, List.take_take, Nat.min_eq_left h] at hs
  omega

theorem sum_take_le_sum (e : List Nat) (j : Nat) : (e.take j).sum ≤ e.sum := by
  have hs := congrArg List.sum (List.take_append_drop j e)
  rw [List.sum_append] at hs
  omega

end

end

/-- **The exact verdict.** Whatever the units ask for and the slots hold at first, and however the
output arrives, a collector on a sink that takes everything returns after a bounded number of steps.
If a unit misses a line, it names the first such unit, and the units before it are written.
Otherwise all units are written, and the result depends on what is left over and on how the queue
ends. -/
theorem verdict_exact (sink : Sink) (slots : Slots) (units : List Descriptor) (ending : Ending)
    (he : ending ≠ .kept) (capacity : Nat) (hcap : 0 < capacity) (output : Bytes)
    (hlimit : sink.outlet.limit = none) (hflush : sink.outlet.flushFails = false) (n : Nat)
    (t : Trial) (hrun : Run (start sink slots units ending capacity output) n t) :
    let e := demands units slots
    let total := (lines output).length
    let unflushed := t.collector.sink.outlet.flushes = sink.outlet.flushes
    let written := fun j => Written sink slots units output j t.collector.sink
    n ≤ (start sink slots units ending capacity output).work ∧
      (t.collector.result? = none →
        (∃ u, Step t u) ∧ (∃ j ≤ units.length, written j) ∧ unflushed) ∧
      ∀ r, t.collector.result? = some r →
        (∀ k, total < (e.take k).sum → (∀ j < k, (e.take j).sum ≤ total) →
          r = .error (.underProduction k) ∧ written (k - 1) ∧ unflushed) ∧
        (e.sum ≤ total → written units.length) ∧
        (ending = .finished → e.sum < total →
          r = .error (.overProduction (units.length + 1)) ∧ unflushed) ∧
        (ending = .finished → e.sum = total →
          r = .ok units.length ∧
            t.collector.sink.outlet.flushes = sink.outlet.flushes + 1) ∧
        (ending = .dropped →
          (∀ m, r ≠ .ok m) ∧ unflushed ∧
            (e.sum < total → units ≠ [] → r = .error (.overProduction (units.length + 1))) ∧
            (e.sum ≤ total → units = [] ∨ e.sum = total → r = .error .queueClosed)) := by
  intro e total unflushed written
  have hinv := run_inv hrun (inv_start sink slots units he hcap output)
  have hwork := run_work hrun (inv_start sink slots units he hcap output)
  refine ⟨by omega, fun hn => ⟨progress hinv hn, hinv.going hn⟩, fun r hr => ?_⟩
  cases r with
  | ok m =>
    obtain ⟨hfin, rfl, hsum, hw, hf⟩ := hinv.of_ok hr
    have hsum : e.sum = total := hsum
    refine ⟨fun k hk _ => ?_, fun _ => hw, fun _ hlt => ?_, fun _ _ => ⟨rfl, hf⟩, fun hd => ?_⟩
    · have := sum_take_le_sum e k
      omega
    · omega
    · rw [hfin] at hd
      cases hd
  | error f =>
    rcases hinv.failure hlimit hflush hr with ⟨k, rfl⟩ | ⟨k, rfl⟩ | rfl
    · obtain ⟨hlt, hge, hpos, hw, hf⟩ := hinv.of_under hr
      have hlt : total < (e.take k).sum := hlt
      have hge : (e.take (k - 1)).sum ≤ total := hge
      have hk := sum_take_le_sum e k
      refine ⟨fun k' hk' hmin => ?_, fun _ => by omega, fun _ _ => by omega, fun _ _ => by omega,
        fun _ => ⟨fun m hm => (by cases hm), hf, fun _ => by omega, fun _ => by omega⟩⟩
      -- Both numbers are least.
      have hkk : k' = k := by
        rcases Nat.lt_trichotomy k k' with h | h | h
        · have := hmin k h
          omega
        · exact h.symm
        · have := sum_take_le (k := k - 1) e (Nat.le_sub_one_of_lt h)
          omega
      rw [hkk]
      exact ⟨rfl, hw, hf⟩
    · obtain ⟨rfl, hlt, hor, hw, hf⟩ := hinv.of_over hr
      have hlt : e.sum < total := hlt
      refine ⟨fun k hk _ => ?_, fun _ => hw, fun _ _ => ⟨rfl, hf⟩, fun _ _ => by omega,
        fun hd => ⟨fun m hm => (by cases hm), hf, fun _ _ => rfl, fun _ hn => ?_⟩⟩
      · have := sum_take_le_sum e k
        omega
      · rcases hn with hn | hn
        · rcases hor with hor | hor
          · rw [hor] at hd
            cases hd
          · exact absurd hn hor
        · omega
    · obtain ⟨hne, hor, hge, hw, hf⟩ := hinv.of_closed hr
      have hor : units = [] ∨ e.sum = total := hor
      have hge : e.sum ≤ total := hge
      refine ⟨fun k hk _ => ?_, fun _ => hw, fun hd => absurd hd hne, fun hd => absurd hd hne,
        fun _ => ⟨fun m hm => (by cases hm), hf, fun hlt hu => ?_, fun _ _ => rfl⟩⟩
      · have := sum_take_le_sum e k
        omega
      · rcases hor with hor | hor
        · exact absurd hor hu
        · omega

/-- A repeated line takes no second answer: one line answers both units. -/
theorem verdict_repeat :
    (Ending.finished ≠ .kept ∧ 0 < 1 ∧ ({} : Sink).outlet.limit = none) ∧
      ∀ n t, Run (start {} {} [.cached 0, .cached 0] .finished 1 [97, lf]) n t → n ≤ 32 ∧
        ∀ r, t.collector.result? = some r → r = .ok 2 ∧ t.collector.sink.outlet.flushes = 1 := by
  refine ⟨⟨by simp, by simp, rfl⟩, fun n t hrun => ?_⟩
  have h := verdict_exact {} {} [.cached 0, .cached 0] .finished (by simp) 1 (by simp) [97, lf]
    rfl rfl
    n t hrun
  have hl : lines [97, lf] = [[97]] := by
    rw [show [97, lf] = [97] ++ lf :: [] from rfl, lines_line (by decide), lines_nil]
  have he : (demands [.cached 0, .cached 0] {}).sum = (lines [97, lf]).length := by
    rw [hl]
    decide
  refine ⟨h.1, fun r hr => ?_⟩
  exact (h.2.2 r hr).2.2.2.1 rfl he

end Trial

end Coprocess
