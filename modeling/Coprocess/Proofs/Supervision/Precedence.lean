import Coprocess.Proofs.Supervision.Tallies

/-!
# Which failure a run reports

* `supervise_error_iff`, `supervise_ok_iff`: when a run fails with a failure, and when it succeeds;
* `Alike`, `supervise_perm`: outcomes of one kind, whatever the order of the reports;
* `Arrival`, `Arrival.Timely`, `Arrival.run`: reports that arrive at some times, and a supervisor
  that waits for them;
* **`Arrival.error_precedence`**: the outcome for a supervisor that does not give up before.
-/

namespace Coprocess

/-! ## The outcome of some reports -/

section

variable {reports reports' : List Report} {e : Failure} {es es' : List Failure}

/-- **The failure that is reported** is the foremost one. -/
theorem supervise_error_iff :
    supervise reports = .error e ↔ foremost? (failures reports) = some e := by
  refine ⟨fun h => ?_, supervise_of_foremost⟩
  cases hf : foremost? (failures reports) with
  | none =>
    rw [supervise_of_no_failure (foremost?_eq_none_iff.mp hf)] at h
    cases h
  | some e' =>
    rw [supervise_of_foremost hf] at h
    cases h
    rfl

theorem failures_map_ofCount (counts : List (Stage × Nat)) :
    failures (counts.map Report.ofCount) = [] := by
  unfold failures
  rw [List.filterMap_map, List.filterMap_eq_nil_iff]
  exact fun _ _ => rfl

/-- **Success is reported** exactly when all reports are of success. -/
theorem supervise_ok_iff {counts : List (Stage × Nat)} :
    supervise reports = .ok counts ↔ reports = counts.map Report.ofCount := by
  refine ⟨supervise_ok, ?_⟩
  rintro rfl
  rw [supervise_of_no_failure (failures_map_ofCount counts), List.map_map]
  exact congrArg Except.ok (List.map_id'' (fun _ => rfl) counts)

/-! ## The order of the reports -/

/-- Outcomes of one kind. -/
inductive Alike : Schedule.Outcome → Schedule.Outcome → Prop
  /-- The same counts, in the order in which they arrived. -/
  | counts {cs ds : List (Stage × Nat)} (h : cs.Perm ds) : Alike (.ok cs) (.ok ds)
  | failure (e : Failure) : Alike (.error e) (.error e)
  /-- Which of several broken pipes is reported depends on the order. -/
  | brokenPipes {e e' : Failure} (h : e.isBrokenPipe = true) (h' : e'.isBrokenPipe = true) :
    Alike (.error e) (.error e')

theorem find?_of_perm {α : Type} {p : α → Bool} {l l' : List α} (h : l.Perm l')
    (hone : l.countP p ≤ 1) : l'.find? p = l.find? p := by
  have hfilter : l.filter p = l'.filter p := by
    have hperm := h.filter p
    rw [List.countP_eq_length_filter] at hone
    cases hl : l.filter p with
    | nil =>
      rw [hl] at hperm
      exact hperm.nil_eq
    | cons a rest =>
      have hrest : rest = [] := by
        rw [hl, List.length_cons] at hone
        exact List.eq_nil_of_length_eq_zero (by omega)
      rw [hl, hrest] at hperm
      rw [hrest]
      exact List.singleton_perm.mp hperm
  rw [← List.head?_filter, ← hfilter, List.head?_filter]

theorem foremost?_of_perm (h : es.Perm es') (hone : es.countP Failure.isPrimary ≤ 1)
    (he : foremost? es = some e) :
    foremost? es' = some e ∨
      e.isBrokenPipe = true ∧ ∃ e', foremost? es' = some e' ∧ e'.isBrokenPipe = true := by
  unfold foremost? at he ⊢
  rw [find?_of_perm h hone, ← h.isEmpty_eq]
  cases hp : es.find? Failure.isPrimary with
  | some e' =>
    rw [hp] at he
    exact .inl he
  | none =>
    rw [hp, Option.none_or] at he
    rw [Option.none_or]
    cases hb : es.find? Failure.isBrokenPipe with
    | none =>
      have hb' : es'.find? Failure.isBrokenPipe = none := by
        rw [List.find?_eq_none] at hb ⊢
        exact fun e' he' => hb e' (h.mem_iff.mpr he')
      rw [hb, Option.none_or] at he
      rw [hb', Option.none_or]
      exact .inl he
    | some e₁ =>
      rw [hb] at he
      cases he
      have hsome : (es'.find? Failure.isBrokenPipe).isSome = true := by
        rw [List.find?_isSome]
        exact ⟨e, h.mem_iff.mp (List.mem_of_find?_eq_some hb), List.find?_some hb⟩
      obtain ⟨e', he'⟩ := Option.isSome_iff_exists.mp hsome
      rw [he']
      exact .inr ⟨List.find?_some hb, e', rfl, List.find?_some he'⟩

/-- **The kind of the outcome** does not depend on the order, unless several failures are no
symptoms of others. -/
theorem supervise_perm (h : reports.Perm reports')
    (hone : (failures reports).countP Failure.isPrimary ≤ 1) :
    Alike (supervise reports) (supervise reports') := by
  have hperm : (failures reports).Perm (failures reports') := h.filterMap _
  cases hf : foremost? (failures reports) with
  | none =>
    have hnil := foremost?_eq_none_iff.mp hf
    rw [hnil] at hperm
    rw [supervise_of_no_failure hnil, supervise_of_no_failure hperm.nil_eq.symm]
    exact .counts (h.map _)
  | some e =>
    rw [supervise_of_foremost hf]
    rcases foremost?_of_perm hperm hone hf with he | ⟨hb, e', he', hb'⟩
    · rw [supervise_of_foremost he]
      exact .failure e
    · rw [supervise_of_foremost he']
      exact .brokenPipes hb hb'

end

/-! ## Reports that arrive -/

/-- A report, and the time at which it arrives. -/
structure Arrival where
  time : Nat
  report : Report

namespace Arrival

/-- Stages that report at given times. -/
def stages : Stages (List Arrival) where
  step now
    | a :: rest => if a.time ≤ now then some (rest, some a.report) else none
    | [] => none
  nextWake? _ arrivals := arrivals.head?.map Arrival.time

/-- A supervisor that waits for all of some reports, for at most so many steps. -/
def run (fuel : Nat) (arrivals : List Arrival) :
    Option (Schedule.Outcome × Schedule (List Arrival)) :=
  Schedule.run stages fuel { state := arrivals, awaited := arrivals.length }

/-- The reports, in the order of arrival. -/
def reports (arrivals : List Arrival) : List Report := arrivals.map Arrival.report

/-- Each report arrives after the one before, and within the grace once a failure was reported. -/
def Timely (arrivals : List Arrival) : Prop :=
  ∀ before a b after, arrivals = before ++ a :: b :: after →
    a.time ≤ b.time ∧
      (failures (reports (before ++ [a])) ≠ [] → b.time < a.time + graceMilliseconds)

/-- What is known of a supervisor that has heard some of the reports. -/
structure Heard (heard : List Arrival) (s : Schedule (List Arrival)) : Prop where
  watch : (reports heard).foldlM Watch.note {} = .ok s.watch
  deadline : s.deadline =
    if s.watch.deferred.isSome then some (s.now + graceMilliseconds) else none
  now : s.now = (heard.getLast?.map Arrival.time).getD 0
  awaited : s.awaited = s.state.length

theorem heard_start (arrivals : List Arrival) :
    Heard [] { state := arrivals, awaited := arrivals.length } :=
  ⟨rfl, rfl, rfl, rfl⟩

variable {heard rest arrivals : List Arrival} {a : Arrival} {s : Schedule (List Arrival)}
  {fuel : Nat}

theorem Heard.failures_ne_nil (h : Heard heard s) (hd : s.watch.deferred.isSome = true) :
    failures (reports heard) ≠ [] := by
  intro hnil
  have hwatch := h.watch
  rw [Watch.notes_secondary (by rw [hnil]; rfl), hnil] at hwatch
  rw [← Except.ok.inj hwatch] at hd
  cases hd

theorem reports_append (before after : List Arrival) :
    reports (before ++ after) = reports before ++ reports after := List.map_append

theorem run_hear (hwatch : (reports heard).foldlM Watch.note {} = .ok s.watch)
    (hawaited : s.awaited = s.state.length) (hs : s.state = a :: rest) (hnow : s.now = a.time)
    (hgo : ∀ s', Heard (heard ++ [a]) s' → s'.state = rest →
      ∃ t, Schedule.run stages fuel s' = some (supervise (reports (heard ++ a :: rest)), t)) :
    ∃ t, Schedule.run stages (fuel + 1) s =
      some (supervise (reports (heard ++ a :: rest)), t) := by
  have hwait : s.awaited ≠ 0 := by
    rw [hawaited, hs, List.length_cons]
    exact Nat.succ_ne_zero _
  have hstep : stages.step s.now s.state = some (rest, some a.report) := by
    rw [hs, hnow]
    exact if_pos (Nat.le_refl a.time)
  rw [Schedule.run, if_neg hwait, hstep]
  cases hn : s.watch.note a.report with
  | error failure =>
    have hall : supervise (reports (heard ++ a :: rest)) = .error failure := by
      have happend : reports (heard ++ a :: rest) =
          reports heard ++ [a.report] ++ reports rest := by
        rw [reports_append, List.append_assoc]
        rfl
      rw [supervise, happend, List.foldlM_append, Watch.notes_concat hwatch, hn]
      rfl
    simp only [Schedule.note, hn, hall]
    exact ⟨_, rfl⟩
  | ok watch =>
    simp only [Schedule.note, hn]
    refine hgo _ ⟨?_, rfl, ?_, ?_⟩ rfl
    · rw [reports_append]
      exact (Watch.notes_concat hwatch a.report).trans hn
    · rw [List.getLast?_concat]
      exact hnow
    · show s.awaited - 1 = rest.length
      rw [hawaited, hs, List.length_cons, Nat.add_sub_cancel]

theorem Heard.now_le (h : Heard heard s) (ht : Timely (heard ++ a :: rest)) : s.now ≤ a.time := by
  rw [h.now]
  rcases heard.eq_nil_or_concat with rfl | ⟨before, b, rfl⟩
  · exact Nat.zero_le _
  · rw [List.concat_eq_append, List.append_assoc] at ht
    rw [List.concat_eq_append, List.getLast?_concat]
    exact (ht before b a rest rfl).1

theorem Heard.lt_deadline (h : Heard heard s) (ht : Timely (heard ++ a :: rest)) {deadline : Nat}
    (hd : s.deadline = some deadline) : a.time < deadline := by
  have hheld : s.watch.deferred.isSome = true := by
    by_contra hheld
    rw [h.deadline, if_neg hheld] at hd
    cases hd
  have hfailures := h.failures_ne_nil hheld
  rw [h.deadline, if_pos hheld, h.now] at hd
  cases hd
  rcases heard.eq_nil_or_concat with rfl | ⟨before, b, rfl⟩
  · exact absurd rfl hfailures
  · rw [List.concat_eq_append, List.append_assoc] at ht
    rw [List.concat_eq_append] at hfailures ⊢
    rw [List.getLast?_concat]
    exact (ht before b a rest rfl).2 hfailures

/-- **A supervisor that hears the reports in time** comes to the outcome of all of them. -/
theorem Heard.run_eq (h : Heard heard s) (ht : Timely (heard ++ s.state))
    (hfuel : 2 * s.state.length < fuel) :
    ∃ t, Schedule.run stages fuel s = some (supervise (reports (heard ++ s.state)), t) := by
  obtain ⟨rest, hs⟩ : ∃ rest, s.state = rest := ⟨_, rfl⟩
  rw [hs] at ht hfuel ⊢
  induction rest generalizing heard s fuel with
  | nil =>
    obtain ⟨fuel, rfl⟩ := Nat.exists_eq_add_one_of_ne_zero (Nat.ne_zero_of_lt hfuel)
    have hall : supervise (reports (heard ++ [])) = s.watch.conclude := by
      rw [List.append_nil, supervise, h.watch]
      rfl
    rw [Schedule.run, if_pos (by rw [h.awaited, hs]; rfl), hall]
    exact ⟨s, rfl⟩
  | cons a rest ih =>
    rw [List.length_cons] at hfuel
    obtain ⟨fuel, rfl⟩ : ∃ n, fuel = n + 2 := ⟨fuel - 2, by omega⟩
    have hgo (s' : Schedule (List Arrival)) (h' : Heard (heard ++ [a]) s') (hs' : s'.state = rest)
        {fuel : Nat} (hfuel : 2 * rest.length < fuel) :
        ∃ t, Schedule.run stages fuel s' =
          some (supervise (reports (heard ++ a :: rest)), t) := by
      have happend : heard ++ a :: rest = heard ++ [a] ++ rest := by
        rw [List.append_assoc, List.singleton_append]
      rw [happend] at ht ⊢
      exact ih h' hfuel ht hs'
    by_cases hdue : a.time ≤ s.now
    · have hnow : s.now = a.time := Nat.le_antisymm (h.now_le ht) hdue
      exact run_hear h.watch h.awaited hs hnow fun s' h' hs' => hgo s' h' hs' (by omega)
    · have hwait : s.awaited ≠ 0 := by
        rw [h.awaited, hs, List.length_cons]
        exact Nat.succ_ne_zero _
      have hstep : stages.step s.now s.state = none := by
        rw [hs]
        exact if_neg hdue
      have hwake : stages.nextWake? s.now s.state = some a.time := by
        rw [hs]
        rfl
      -- The clock is set to the arrival, which the supervisor waits for.
      have hlater : Schedule.run stages (fuel + 2) s =
          Schedule.run stages (fuel + 1) { s with now := a.time } := by
        rw [Schedule.run, if_neg hwait, hstep, hwake]
        cases hd : s.deadline with
        | none => rfl
        | some deadline =>
          have hlt := h.lt_deadline ht hd
          exact if_neg (by omega)
      rw [hlater]
      exact run_hear h.watch h.awaited hs rfl fun s' h' hs' => hgo s' h' hs' (by omega)

/-- **A run that succeeds** has heard of successes alone, whenever they arrived. -/
theorem reports_of_run_ok {counts : List (Stage × Nat)}
    (h : run fuel arrivals = some (.ok counts, s)) :
    reports arrivals = counts.map Report.ofCount := by
  let P (state : List Arrival) (reps : List Report) : Prop :=
    ∃ heard, arrivals = heard ++ state ∧ reps = reports heard
  have hstep : ∀ now state state' report? reps, P state reps →
      stages.step now state = some (state', report?) → P state' (reps ++ report?.toList) := by
    rintro now state state' report? _ ⟨heard, harrivals, rfl⟩ hs
    cases state with
    | nil => cases hs
    | cons a rest =>
      obtain ⟨-, hs⟩ := Option.ite_none_right_eq_some.mp hs
      cases hs
      refine ⟨heard ++ [a], ?_, ?_⟩
      · rw [harrivals, List.append_assoc, List.singleton_append]
      · rw [reports_append]
        rfl
  obtain ⟨all, ⟨heard, harrivals, rfl⟩, hall, hlen⟩ :=
    Schedule.run_ok P hstep (Schedule.inv_start arrivals arrivals.length) ⟨[], rfl, rfl⟩ h
  have hheard : heard = arrivals := by
    have hlen : heard.length = arrivals.length := by rwa [reports, List.length_map] at hlen
    exact List.IsPrefix.eq_of_length ⟨s.state, harrivals.symm⟩ hlen
  rw [← supervise_ok_iff, ← hheard, hall]

/-- **Reports that arrive in time** are all taken into account. -/
theorem run_eq_supervise (ht : Timely arrivals) (hfuel : 2 * arrivals.length < fuel) :
    ∃ t, run fuel arrivals = some (supervise (reports arrivals), t) :=
  (heard_start arrivals).run_eq ht hfuel

/-- **The outcome of a run** in which the supervisor does not give up: all counts when all stages
succeed, and otherwise the foremost failure. When at most one failure is no symptom of another,
every other order of arrival gives an outcome of the same kind. A run with a failure does not
succeed, also when the supervisor gives up. -/
theorem error_precedence (arrivals : List Arrival) (fuel : Nat)
    (hfuel : 2 * arrivals.length < fuel) :
    (∀ counts s, run fuel arrivals = some (.ok counts, s) →
        reports arrivals = counts.map Report.ofCount) ∧
      (Timely arrivals → ∃ outcome s, run fuel arrivals = some (outcome, s) ∧
        (∀ counts, outcome = .ok counts ↔ reports arrivals = counts.map Report.ofCount) ∧
        (∀ e, outcome = .error e ↔ foremost? (failures (reports arrivals)) = some e) ∧
        ((failures (reports arrivals)).countP Failure.isPrimary ≤ 1 →
          ∀ others, Timely others → (reports arrivals).Perm (reports others) →
            ∃ outcome' s',
              run fuel others = some (outcome', s') ∧ Alike outcome outcome')) := by
  refine ⟨fun counts s h => reports_of_run_ok h, fun ht => ?_⟩
  obtain ⟨s, hrun⟩ := run_eq_supervise ht hfuel
  refine ⟨_, s, hrun, fun counts => supervise_ok_iff, fun e => supervise_error_iff, ?_⟩
  intro hone others ht' hperm
  have hlen : others.length = arrivals.length := by
    have hlen := hperm.length_eq
    rw [reports, reports, List.length_map, List.length_map] at hlen
    exact hlen.symm
  obtain ⟨s', hrun'⟩ := run_eq_supervise ht' (hlen.symm ▸ hfuel)
  exact ⟨_, s', hrun', supervise_perm hperm hone⟩

/-- A child has failed, which is reported after a broken pipe and a closed queue. -/
def childLast : List Arrival :=
  [⟨3, .workerFeeder, .error (.system .pipe)⟩, ⟨10, .input, .error .queueClosed⟩,
    ⟨5009, .reaper, .error (.childExit (some 7) (.exited 1))⟩]

/-- The same reports, with that of the child first. -/
def childFirst : List Arrival :=
  [⟨0, .reaper, .error (.childExit (some 7) (.exited 1))⟩,
    ⟨1, .workerFeeder, .error (.system .pipe)⟩, ⟨2, .input, .error .queueClosed⟩]

/-- The child is found to be the cause in either order. -/
theorem error_precedence_child :
    Timely childLast ∧ Timely childFirst ∧
      (∃ s, run 7 childLast = some (.error (.childExit (some 7) (.exited 1)), s)) ∧
      ∃ s, run 7 childFirst = some (.error (.childExit (some 7) (.exited 1)), s) := by
  have timely_of_pairs {a b c : Arrival}
      (hab : a.time ≤ b.time ∧ b.time < a.time + graceMilliseconds)
      (hbc : b.time ≤ c.time ∧ c.time < b.time + graceMilliseconds) : Timely [a, b, c] := by
    intro before a' b' after h
    obtain _ | ⟨_, _ | ⟨_, before⟩⟩ := before
    · cases h
      exact ⟨hab.1, fun _ => hab.2⟩
    · cases h
      exact ⟨hbc.1, fun _ => hbc.2⟩
    · have hlen := congrArg List.length h
      simp only [List.cons_append, List.length_cons, List.length_append, List.length_nil] at hlen
      omega
  have hlast : Timely childLast := timely_of_pairs (by decide) (by decide)
  have hfirst : Timely childFirst := timely_of_pairs (by decide) (by decide)
  have hperm : (reports childLast).Perm (reports childFirst) :=
    @List.perm_append_comm _ [_, _] [_]
  obtain ⟨outcome, s, hrun, -, herror, hothers⟩ :=
    (error_precedence childLast 7 (by decide)).2 hlast
  obtain ⟨outcome', s', hrun', halike⟩ := hothers (by decide) childFirst hfirst hperm
  have hcause : outcome = .error (.childExit (some 7) (.exited 1)) := (herror _).mpr rfl
  subst hcause
  refine ⟨hlast, hfirst, ⟨s, hrun⟩, s', ?_⟩
  cases halike with
  | failure => exact hrun'
  | brokenPipes h => cases h

end Arrival

end Coprocess
