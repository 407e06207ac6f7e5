import Coprocess.Proofs.Child.Session

/-!
# A child is reaped once, and its number afterwards

* `Handle.Awaited`, `Handle.Reaped`: before the process is reaped, and when a call has reaped it;
* `Handle.Since`: what the system got before the handle went on asking;
* `Handle.Course`, `Handle.Course.Describes`: where in the life of a handle the process is reaped,
  and what follows;
* `Handle.perform_cases`: what a call does to a process that is not reaped;
* **`Handle.reaped_once`**: the process is reaped by one call. No other follows when it exited or a
  signal with a name ended it; after another signal others do follow, unless the process is reaped
  by the very last call.
-/

namespace Coprocess

namespace Handle

variable {ω : Type}

/-! ## Before the process is reaped, and the call that reaps it -/

/-- The process is not reaped, and it will be after at most `n` reports; no call has reaped it. -/
structure Awaited (process : ω → Host.Process) (n : Nat) (w : ω × List SystemCall) : Prop where
  within : (process w.1).Within n
  quiet : ∀ c ∈ w.2, c.reaps = false

/-- The process has ended, and the last call that the system got has reaped it; those before it have
not. -/
structure Reaped (process : ω → Host.Process) (block : Bool) (ending : ProcessEnd)
    (before : List SystemCall) (w : ω × List SystemCall) : Prop where
  reaped : process w.1 = .reaped
  log : w.2 = before ++ [.wait block ending.status]
  quiet : ∀ c ∈ before, c.reaps = false

/-- The process is reaped, and the first calls that the system got are these. -/
def Since (process : ω → Host.Process) (log : List SystemCall) (w : ω × List SystemCall) : Prop :=
  process w.1 = .reaped ∧ ∃ more, w.2 = log ++ more

variable {host : Host ω} {process : ω → Host.Process} {fuel n : Nat}
  {w : ω × List SystemCall}

/-- **What a call that waits does**: it reaps the process, or it tells of something else, which is
one report less when it was to block. -/
theorem Awaited.wait_cases (ha : Awaited process (n + 1) w) (hlaw : host.Lawful process)
    (block : Bool) (hends : block = true → (process w.1).Ends) :
    (∃ ending, (host.wait block w.1).1 = ending.status ∧
        Reaped process block ending w.2 (host.recorded.wait block w).2) ∨
      ((block = true ∧ (host.wait block w.1).1 = .error .interrupted ∨
          ∃ status, (host.wait block w.1).1 = .ok status ∧ status.termination? = none) ∧
        Awaited process (n + 1) (host.recorded.wait block w).2 ∧
        (block = true → Awaited process n (host.recorded.wait block w).2 ∧
          (process (host.recorded.wait block w).2.1).Ends)) := by
  obtain ⟨p, hages, hends', hreports⟩ := hlaw.wait block w.1 ha.within.ne_reaped hends
  have hwithin : p.Within (n + 1) := hages.within ha.within
  have hnext (hb : block = true) := hreports.of_ends (hends' hb)
  rw [Host.recorded_wait]
  have hquiet (answer : Except Errno WaitStatus)
      (hanswer : (SystemCall.wait block answer).reaps = false) :
      ∀ c ∈ w.2 ++ [.wait block answer], c.reaps = false := by
    intro c hc
    rcases List.mem_append.mp hc with hc | hc
    · exact ha.quiet c hc
    · rw [List.mem_singleton.mp hc, hanswer]
  generalize host.wait block w.1 = answer at hreports hnext ⊢
  obtain ⟨answer, v⟩ := answer
  generalize hp' : process v = p' at hreports
  cases hreports with
  | reaps ending => exact .inl ⟨ending, rfl, hp', rfl, ha.quiet⟩
  | notice hnone =>
    have hq := hquiet (.ok _) (by rw [SystemCall.reaps, hnone]; rfl)
    have hlt := Nat.lt_of_succ_lt_succ hwithin
    exact .inr ⟨.inr ⟨_, rfl, hnone⟩, ⟨hp' ▸ Nat.lt_succ_of_lt hlt, hq⟩,
      fun hb => ⟨⟨hp' ▸ hlt, hq⟩, hp' ▸ hnext hb⟩⟩
  | interrupted hb =>
    have hq := hquiet (.error .interrupted) rfl
    have hlt := Nat.lt_of_succ_lt_succ hwithin
    exact .inr ⟨.inl ⟨hb, rfl⟩, ⟨hp' ▸ Nat.lt_succ_of_lt hlt, hq⟩,
      fun hb => ⟨⟨hp' ▸ hlt, hq⟩, hp' ▸ hnext hb⟩⟩
  | nothing hb hnone =>
    have hq := hquiet (.ok _) (by rw [SystemCall.reaps, hnone]; rfl)
    exact .inr ⟨.inr ⟨_, rfl, hnone⟩, ⟨hp' ▸ hwithin, hq⟩, fun h => by simp_all⟩

theorem Awaited.ages {v : ω} (ha : Awaited process n w) (hv : (process w.1).Ages (process v))
    (more : List SystemCall) (hmore : ∀ c ∈ more, c.reaps = false) :
    Awaited process n (v, w.2 ++ more) where
  within := hv.within ha.within
  quiet c hc := (List.mem_append.mp hc).elim (ha.quiet c) (hmore c)

/-! ## What each operation does -/

theorem waitUntilGone_spec (hlaw : host.Lawful process) (ha : Awaited process n w)
    (hends : (process w.1).Ends) :
    ∃ answer ending before w', waitUntilGone host.recorded n w = (some answer, w') ∧
      answer.map some = ending.told ∧ answer.toOption = ending.reason? ∧
      Reaped process true ending before w' := by
  induction n generalizing w with
  | zero => exact absurd ha.within (Host.Process.not_within_zero _)
  | succ n ih =>
    simp only [waitUntilGone, Host.recorded_wait]
    rcases ha.wait_cases hlaw true fun _ => hends with
      ⟨ending, hanswer, hr⟩ | ⟨hanswer, -, hnext⟩
    · rw [Host.recorded_wait] at hr
      rcases ending.status_cases with
        ⟨status, reason, hs, ht, hreason, htold⟩ | ⟨hs, hreason, htold⟩
      · refine ⟨.ok reason, ending, w.2, _, ?_, htold.symm, hreason.symm, hr⟩
        simp only [hanswer, hs, ht]
      · refine ⟨.error .invalid, ending, w.2, _, ?_, htold.symm, hreason.symm, hr⟩
        simp only [hanswer, hs]
    · obtain ⟨hn, hends⟩ := hnext rfl
      rw [Host.recorded_wait] at hn hends
      rcases hanswer with ⟨-, hanswer⟩ | ⟨status, hanswer, ht⟩
      · simp only [hanswer] at hn ⊢
        exact ih hn hends
      · simp only [hanswer, ht] at hn ⊢
        exact ih hn hends

theorem wait_spec (hlaw : host.Lawful process) (ha : Awaited process fuel w)
    (hends : (process w.1).Ends) :
    ∃ answer ending before w', wait host.recorded fuel {} w = (some answer, ⟨ending.reason?⟩, w') ∧
      answer.map some = ending.told ∧ Reaped process true ending before w' := by
  obtain ⟨answer, ending, before, w', h, htold, hreason, hr⟩ := waitUntilGone_spec hlaw ha hends
  refine ⟨answer, ending, before, w', ?_, htold, hr⟩
  rw [wait, h, ← hreason]
  cases answer <;> rfl

theorem tryWait_spec (hlaw : host.Lawful process) (ha : Awaited process fuel w) :
    (∃ ending before w', tryWait host.recorded {} w = (ending.told, ⟨ending.reason?⟩, w') ∧
        Reaped process false ending before w') ∨
      ∃ w', tryWait host.recorded {} w = (.ok none, {}, w') ∧ Awaited process fuel w' := by
  cases fuel with
  | zero => exact absurd ha.within (Host.Process.not_within_zero _)
  | succ fuel =>
    simp only [tryWait]
    rcases ha.wait_cases hlaw false (by simp) with ⟨ending, hanswer, hr⟩ | ⟨hanswer, hn, -⟩
    · refine .inl ⟨ending, w.2, _, ?_, hr⟩
      simp only [Host.recorded_wait, hanswer]
      rcases ending.status_cases with
        ⟨status, reason, hs, ht, hreason, htold⟩ | ⟨hs, hreason, htold⟩
      · simp only [hs, ht, hreason, htold]
      · simp only [hs, hreason, htold]
    · rcases hanswer with ⟨hb, -⟩ | ⟨status, hanswer, ht⟩
      · exact absurd hb (by simp)
      · refine .inr ⟨_, ?_, hn⟩
        simp only [Host.recorded_wait, hanswer, ht]

theorem signal_spec (hlaw : host.Lawful process) (ha : Awaited process n w) (s : NamedSignal) :
    ∃ w', host.recorded.signal s w = (.ok (), w') ∧ process w'.1 = process (host.signal s w.1).2 ∧
      Awaited process n w' := by
  obtain ⟨hok, hages⟩ := hlaw.signal s w.1 ha.within.ne_reaped
  refine ⟨_, ?_, rfl, ha.ages hages [.signal s] (by simp [SystemCall.reaps])⟩
  rw [Host.recorded_signal, hok]

theorem terminate_spec (hlaw : host.Lawful process) (ha : Awaited process n w) :
    ∃ w', terminate host.recorded {} w = (.ok (), w') ∧ Awaited process n w' := by
  obtain ⟨w', h, -, hn⟩ := signal_spec hlaw ha .term
  exact ⟨w', h, hn⟩

theorem kill_spec (hlaw : host.Lawful process) (ha : Awaited process fuel w) :
    ∃ answer ending before w', kill host.recorded fuel {} w = (some answer, ⟨ending.reason?⟩, w') ∧
      answer.map some = ending.told ∧ Reaped process true ending before w' := by
  obtain ⟨v, h, hv, hn⟩ := signal_spec hlaw ha .kill
  have hends : (process v.1).Ends := hv ▸ hlaw.kill w.1 ha.within.ne_reaped
  obtain ⟨answer, ending, before, w', hwait, hr⟩ := wait_spec hlaw hn hends
  refine ⟨answer, ending, before, w', ?_, hr⟩
  rw [← hwait, kill, h]
  rfl

/-- **What a call does to a process that is not reaped**: it reaps it and tells so, or it finds
nothing. -/
theorem perform_cases (hlaw : host.Lawful process) (ha : Awaited process fuel w) (c : Call)
    (hends : c = .wait → (process w.1).Ends) :
    (∃ ending block before w', c ≠ .terminate ∧
        perform host.recorded fuel {} w c = (some ending.told, ⟨ending.reason?⟩, w') ∧
        Reaped process block ending before w') ∨
      ∃ w', (c = .tryWait ∨ c = .terminate) ∧
        perform host.recorded fuel {} w c = (some (.ok none), {}, w') ∧
        Awaited process fuel w' := by
  cases c with
  | wait =>
    obtain ⟨answer, ending, before, w', h, htold, hr⟩ := wait_spec hlaw ha (hends rfl)
    have hperform : perform host.recorded fuel {} w .wait =
        (some ending.told, ⟨ending.reason?⟩, w') := by
      simp only [perform, h, Option.map_some, htold]
    exact .inl ⟨ending, true, before, w', by decide, hperform, hr⟩
  | tryWait =>
    rcases tryWait_spec hlaw ha with ⟨ending, before, w', h, hr⟩ | ⟨w', h, hn⟩
    · exact .inl ⟨ending, false, before, w', by decide, by simp only [perform, h], hr⟩
    · exact .inr ⟨w', .inl rfl, by simp only [perform, h], hn⟩
  | terminate =>
    obtain ⟨w', h, hn⟩ := terminate_spec hlaw ha
    exact .inr ⟨w', .inr rfl, by simp only [perform, h, Except.map], hn⟩
  | kill =>
    obtain ⟨answer, ending, before, w', h, htold, hr⟩ := kill_spec hlaw ha
    have hperform : perform host.recorded fuel {} w .kill =
        (some ending.told, ⟨ending.reason?⟩, w') := by
      simp only [perform, h, Option.map_some, htold]
    exact .inl ⟨ending, true, before, w', by decide, hperform, hr⟩

/-! ## After the process is reaped -/

section

variable {reason : Termination}

theorem perform_of_known (c : Call) (host : Host ω) (w : ω) :
    perform host fuel ⟨some reason⟩ w c = (c.answer reason, ⟨some reason⟩, w) := by
  cases c <;> rfl

theorem life_of_known (host : Host ω) (w : ω) (calls : List Call) :
    life host fuel calls ⟨some reason⟩ w = (calls.map (Call.answer reason), ⟨some reason⟩, w) := by
  induction calls with
  | nil => rfl
  | cons c cs ih => simp only [life, perform_of_known, ih, List.map_cons]

theorem keeps_since (hlaw : host.Lawful process) (log : List SystemCall) :
    host.recorded.Keeps (Since process log) where
  wait block w := by
    rintro ⟨hr, more, hlog⟩
    exact ⟨hlaw.wait_reaped block w.1 hr, more ++ _, by
      rw [Host.recorded_wait, hlog, List.append_assoc]⟩
  signal s w := by
    rintro ⟨hr, more, hlog⟩
    exact ⟨hlaw.signal_reaped s w.1 hr, more ++ _, by
      rw [Host.recorded_signal, hlog, List.append_assoc]⟩
  pause milliseconds w := by
    rintro ⟨hr, more, hlog⟩
    exact ⟨hlaw.pause_reaped milliseconds w.1 hr, more, hlog⟩

theorem since_wait (hlaw : host.Lawful process) (hr : process w.1 = .reaped) (block : Bool) :
    Since process (w.2 ++ [.wait block (host.wait block w.1).1]) (host.recorded.wait block w).2 :=
  ⟨hlaw.wait_reaped block w.1 hr, [], (List.append_nil _).symm⟩

theorem since_signal (hlaw : host.Lawful process) (hr : process w.1 = .reaped) (s : NamedSignal) :
    Since process (w.2 ++ [.signal s]) (host.recorded.signal s w).2 :=
  ⟨hlaw.signal_reaped s w.1 hr, [], (List.append_nil _).symm⟩

/-- A handle that does not know that the process is reaped goes on asking the system. -/
theorem perform_since (hlaw : host.Lawful process) (hr : process w.1 = .reaped) (c : Call) :
    ∃ call, Since process (w.2 ++ [call]) (perform host.recorded (fuel + 1) {} w c).2.2 := by
  cases c with
  | wait =>
    have hwait : Since process (w.2 ++ [.wait true (host.wait true w.1).1])
        (waitUntilGone host.recorded (fuel + 1) w).2 :=
      keeps_waitUntilGone_succ (fun _ hv => keeps_waitUntilGone (keeps_since hlaw _) hv)
        (since_wait hlaw hr true)
    rw [← wait_of_unknown] at hwait
    exact ⟨_, hwait⟩
  | tryWait =>
    have hwait := since_wait hlaw hr false
    rw [← tryWait_of_unknown] at hwait
    exact ⟨_, hwait⟩
  | terminate => exact ⟨.signal .term, since_signal hlaw hr .term⟩
  | kill =>
    exact ⟨.signal .kill, keeps_kill_of_unknown (keeps_since hlaw _) (since_signal hlaw hr .kill)⟩

theorem life_since (fuel : Nat) (hlaw : host.Lawful process) (hr : process w.1 = .reaped)
    (calls : List Call) :
    ∃ call, Since process (w.2 ++ [call]) (life host.recorded (fuel + 1) calls {} w).2.2 := by
  cases calls with
  | nil => exact ⟨_, keeps_drop_of_unknown (keeps_since hlaw _) (since_signal hlaw hr .term)⟩
  | cons c cs =>
    obtain ⟨call, hc⟩ := perform_since hlaw hr c
    exact ⟨call, keeps_life (keeps_since hlaw _) cs hc⟩

end

/-! ## The whole life -/

/-- How the life of a handle goes. -/
structure Course where
  /-- The calls of the owner that find nothing. -/
  quiet : List Call
  /-- The calls from the one on that reaps the process; none if it is reaped when the handle is
  given up. -/
  rest : List Call
  /-- What these return. -/
  returned : List Answer
  ending : ProcessEnd
  /-- The calls that the system gets up to the one that reaps the process. -/
  before : List SystemCall
  /-- The one that reaps it blocks. -/
  block : Bool
  /-- The calls that the system gets afterwards. -/
  later : List SystemCall

/-- What the owner calls, what is returned, and what the system gets, go as the course says, and one
of the calls that the system gets reaps the process. If there is a reason to tell, then that call is
the last, and all calls of the owner return the reason from then on, but for a request to end, which
returns none. If there is no reason to tell, the call of the owner fails, and the system gets other
calls afterwards, unless the process is reaped by the last call of all. -/
structure Course.Describes (t : Course) (process : ω → Host.Process) (calls : List Call)
    (r : List Answer × Handle × ω × List SystemCall) : Prop where
  calls : calls = t.quiet ++ t.rest
  looks : ∀ c ∈ t.quiet, c = .tryWait ∨ c = .terminate
  answers : r.1 = t.quiet.map (fun _ => some (.ok none)) ++ t.returned
  first : t.returned.head? = t.rest.head?.map fun _ => some t.ending.told
  log : r.2.2.2 = t.before ++ .wait t.block t.ending.status :: t.later
  before : ∀ c ∈ t.before, c.reaps = false
  reaps : (SystemCall.wait t.block t.ending.status).reaps = true
  reaped : process r.2.2.1 = .reaped
  known : ∀ reason, t.ending.reason? = some reason →
    t.later = [] ∧ t.returned = t.rest.map (Call.answer reason) ∧ r.2.1 = ⟨some reason⟩
  unknown : t.ending.reason? = none → (t.later = [] ↔ t.block = true ∧ t.rest = [])

section

variable {c : Call} {cs rest : List Call} {ending : ProcessEnd} {block : Bool}
  {before : List SystemCall} {w' : ω × List SystemCall}

/-- The call that reaps the process is the last one. -/
theorem Reaped.describes_last (hr : Reaped process block ending before w) {returned : List Answer}
    (hfirst : returned.head? = rest.head?.map fun _ => some ending.told)
    (hknown : ∀ reason, ending.reason? = some reason → returned = rest.map (Call.answer reason))
    (hunknown : ending.reason? = none → block = true ∧ rest = []) :
    Course.Describes ⟨[], rest, returned, ending, before, block, []⟩ process rest
      (returned, ⟨ending.reason?⟩, w) where
  calls := rfl
  looks := by simp
  answers := rfl
  first := hfirst
  log := hr.log
  before := hr.quiet
  reaps := SystemCall.reaps_wait_status block ending
  reaped := hr.reaped
  known reason h := ⟨rfl, hknown reason h, by rw [h]⟩
  unknown h := by simp [hunknown h]

/-- The process is reaped, and the system gets another call. -/
theorem Reaped.exists_course (hr : Reaped process block ending before w')
    (hreason : ending.reason? = none) {r : List Answer × Handle × ω × List SystemCall}
    {call : SystemCall} (hsince : Since process (w'.2 ++ [call]) r.2.2)
    (hfirst : r.1.head? = rest.head?.map fun _ => some ending.told)
    (hrest : ¬ (block = true ∧ rest = [])) : ∃ t : Course, t.Describes process rest r := by
  obtain ⟨hreaped, more, hlog⟩ := hsince
  refine ⟨⟨[], rest, r.1, ending, before, block, call :: more⟩, ?_⟩
  exact {
    calls := rfl, looks := by simp, answers := rfl, first := hfirst
    log := by simp only [hlog, hr.log, List.append_assoc, List.cons_append, List.nil_append]
    before := hr.quiet
    reaps := SystemCall.reaps_wait_status block ending, reaped := hreaped
    known := fun reason h => by simp [hreason] at h
    unknown := fun _ => by simp only [reduceCtorEq, hrest] }

theorem exists_course_of_reaped (hlaw : host.Lawful process) (hc : c ≠ .terminate)
    (h : perform host.recorded (fuel + 1) {} w c = (some ending.told, ⟨ending.reason?⟩, w'))
    (hr : Reaped process block ending before w') :
    ∃ t : Course, t.Describes process (c :: cs) (life host.recorded (fuel + 1) (c :: cs) {} w) := by
  rcases ending.status_cases with ⟨status, reason, -, -, hreason, htold⟩ | ⟨-, hreason, -⟩
  · have hanswer : some ending.told = c.answer reason := by
      cases c with
      | terminate => exact absurd rfl hc
      | wait | tryWait | kill => rw [htold]; rfl
    have hlife : life host.recorded (fuel + 1) (c :: cs) {} w =
        ((c :: cs).map (Call.answer reason), ⟨ending.reason?⟩, w') := by
      simp only [life, h, hreason, life_of_known, hanswer, List.map_cons]
    rw [hlife]
    refine ⟨_, hr.describes_last (by simp [hanswer]) (fun reason' h' => ?_) (by simp [hreason])⟩
    rw [Option.some.inj (hreason.symm.trans h')]
  · obtain ⟨call, hsince⟩ := life_since fuel hlaw hr.reaped cs
    have hlife : life host.recorded (fuel + 1) (c :: cs) {} w =
        (some ending.told :: (life host.recorded (fuel + 1) cs {} w').1,
          (life host.recorded (fuel + 1) cs {} w').2) := by
      simp only [life, h, hreason]
    rw [hlife]
    exact hr.exists_course hreason hsince rfl (by simp)

theorem exists_course_of_quiet (hc : c = .tryWait ∨ c = .terminate)
    (h : perform host.recorded fuel {} w c = (some (.ok none), {}, w'))
    (hcs : ∃ t : Course, t.Describes process cs (life host.recorded fuel cs {} w')) :
    ∃ t : Course, t.Describes process (c :: cs) (life host.recorded fuel (c :: cs) {} w) := by
  obtain ⟨t, ht⟩ := hcs
  have hlife : life host.recorded fuel (c :: cs) {} w =
      (some (.ok none) :: (life host.recorded fuel cs {} w').1,
        (life host.recorded fuel cs {} w').2) := by
    simp only [life, h]
  rw [hlife]
  refine ⟨{ t with quiet := c :: t.quiet }, ?_⟩
  exact { ht with
    calls := congrArg (c :: ·) ht.calls
    looks := List.forall_mem_cons.mpr ⟨hc, ht.looks⟩
    answers := congrArg (some (.ok none) :: ·) ht.answers }

theorem exists_course_of_drop (hlaw : host.Lawful process) (ha : Awaited process fuel w) :
    ∃ t : Course, t.Describes process [] (life host.recorded fuel [] {} w) := by
  obtain ⟨w₁, hterm, ha₁⟩ := terminate_spec hlaw ha
  have ha₂ : Awaited process fuel (host.recorded.pause graceMilliseconds w₁) := by
    simpa using ha₁.ages (hlaw.pause graceMilliseconds w₁.1 ha₁.within.ne_reaped) [] (by simp)
  have hlife : life host.recorded fuel [] {} w =
      ([], reapOrKill host.recorded fuel {} (host.recorded.pause graceMilliseconds w₁)) := by
    rw [life, drop, hterm]
    rfl
  generalize host.recorded.pause graceMilliseconds w₁ = w₂ at ha₂ hlife
  rw [hlife, reapOrKill]
  rcases tryWait_spec hlaw ha₂ with ⟨ending, before, w₃, htry, hr⟩ | ⟨w₃, htry, ha₃⟩
  · rw [htry]
    rcases ending.status_cases with ⟨status, reason, -, -, hreason, htold⟩ | ⟨-, hreason, htold⟩
    · simp only [htold]
      exact ⟨_, hr.describes_last rfl (fun _ _ => rfl) (by simp [hreason])⟩
    · simp only [htold, hreason]
      -- The look has reaped the process, and failed, so the child is to be ended.
      have hsince : Since process (w₃.2 ++ [.signal .kill]) (kill host.recorded fuel {} w₃).2.2 :=
        keeps_kill_of_unknown (keeps_since hlaw _) (since_signal hlaw hr.reaped .kill)
      exact hr.exists_course hreason hsince rfl (by simp)
  · obtain ⟨answer, ending, before, w₄, hkill, -, hr⟩ := kill_spec hlaw ha₃
    simp only [htry, hkill]
    exact ⟨_, hr.describes_last rfl (fun _ _ => rfl) fun _ => ⟨rfl, rfl⟩⟩

end

theorem exists_course (hlaw : host.Lawful process) {calls : List Call}
    (ha : Awaited process (fuel + 1) w)
    (hends : EndsWhenAwaited host process (fuel + 1) calls {} w.1) :
    ∃ t : Course, t.Describes process calls (life host.recorded (fuel + 1) calls {} w) := by
  induction calls generalizing w with
  | nil => exact exists_course_of_drop hlaw ha
  | cons c cs ih =>
    obtain ⟨hwait, hrest⟩ := hends
    rw [perform_recorded] at hrest
    rcases perform_cases hlaw ha c fun hc => hwait hc rfl with
      ⟨ending, block, before, w', hc, h, hr⟩ | ⟨w', hc, h, hn⟩
    · exact exists_course_of_reaped hlaw hc h hr
    · rw [h] at hrest
      exact exists_course_of_quiet hc h (ih hn hrest)

/-- **A child is reaped once, and when its number is used afterwards.** Its owner waits for it,
looks, asks it to end and ends it in any order and then gives up the handle, while the process is
stopped and continued and calls are interrupted, less than `fuel` times, and ends at any moment, by
any exit code or signal; only who waits for a process relies on it that it ends. One call that the
system gets reaps the process. It is the last one, and all calls of the owner return one reason from
then on, if the process exited or a signal with a name ended it. After a signal without a name the
handle does not learn of the end, and the system gets more calls for a number that is free, unless
the process is reaped by the very last call. -/
theorem reaped_once (hlaw : host.Lawful process) {w : ω} (hw : (process w).Within fuel)
    {calls : List Call} (hends : EndsWhenAwaited host process fuel calls {} w) :
    ∃ t : Course, t.Describes process calls (life host.recorded fuel calls {} (w, [])) ∧
      life host fuel calls {} w = forget (life host.recorded fuel calls {} (w, [])) ∧
      (t.ending.reason? = none ↔
        ∃ s coreDumped, t.ending = .signaled s coreDumped ∧ 31 < s.number) := by
  cases fuel with
  | zero => exact absurd hw (Host.Process.not_within_zero _)
  | succ fuel =>
    have ha : Awaited process (fuel + 1) (w, []) := ⟨hw, by simp⟩
    obtain ⟨t, ht⟩ := exists_course hlaw ha hends
    exact ⟨t, ht, life_recorded host (fuel + 1) calls {} (w, []), ProcessEnd.reason?_eq_none_iff⟩

end Handle

/-! ## A process that exits when it is waited for -/

/-- A system with a process that is continued a few times, or a call that waits is interrupted, and
that then runs on until it is waited for. A process that was waited for is not known any more. -/
def Host.obliging : Host Host.Process where
  wait block
    | .running (notices + 1) ends =>
      (if block then .error .interrupted else .ok .continued, .running notices ends)
    | .running 0 ends =>
      if block then (.ok (.exited 0), .reaped) else (.ok .stillAlive, .running 0 ends)
    | .gone ending => (ending.status, .reaped)
    | .reaped => (.error .noChild, .reaped)
  signal s
    | .running notices ends =>
      (.ok (), if s = .kill then .gone (.signaled .kill false) else .running notices ends)
    | .gone ending => (.ok (), .gone ending)
    | .reaped => (.error .noProcess, .reaped)
  pause _ p := p

theorem Host.obliging_lawful : obliging.Lawful id where
  wait block w hw hends := by
    cases w with
    | running notices ends =>
      cases notices with
      | succ notices =>
        refine ⟨_, .runs (Nat.le_refl _), hends, ?_⟩
        cases block with
        | true => exact .interrupted rfl
        | false => exact .notice rfl
      | zero =>
        cases block with
        | true => exact ⟨_, .ends (.exited 0), fun _ => trivial, .reaps _⟩
        | false => exact ⟨_, .runs (Nat.le_refl _), hends, .nothing rfl rfl⟩
    | gone ending => exact ⟨_, .stays ending, fun _ => trivial, .reaps ending⟩
    | reaped => exact absurd rfl hw
  signal s w hw := by
    cases w with
    | running notices ends =>
      refine ⟨rfl, ?_⟩
      simp only [obliging, id]
      split_ifs
      · exact .ends _
      · exact .runs (Nat.le_refl _)
    | gone ending => exact ⟨rfl, .stays ending⟩
    | reaped => exact absurd rfl hw
  kill w hw := by
    cases w with
    | running | gone => trivial
    | reaped => exact absurd rfl hw
  pause _ w hw := by
    cases w with
    | running notices ends => exact .runs (Nat.le_refl _)
    | gone ending => exact .stays ending
    | reaped => exact absurd rfl hw
  wait_reaped _ w hw := by
    obtain rfl : w = .reaped := hw
    rfl
  signal_reaped _ w hw := by
    obtain rfl : w = .reaped := hw
    rfl
  pause_reaped _ _ hw := hw

/-- A continuation is reported and a call is interrupted before the process exits; the owner makes
all calls after that. -/
theorem Handle.reaped_once_obliging :
    let calls : List Handle.Call := [.tryWait, .terminate, .wait, .kill, .tryWait, .terminate]
    (∃ t : Course, t.Describes id calls
        (life Host.obliging.recorded 3 calls {} (.running 2 true, []))) ∧
      (life Host.obliging 3 calls {} (.running 2 true)).1 =
        [some (.ok none), some (.ok none), some (.ok (some (.exited 0))),
          some (.ok (some (.exited 0))), some (.ok (some (.exited 0))), some (.ok none)] ∧
      (life Host.obliging.recorded 3 calls {} (.running 2 true, [])).2.2.2 =
        [.wait false (.ok .continued), .signal .term, .wait true (.error .interrupted),
          .wait true (.ok (.exited 0))] := by
  intro calls
  have hwithin : Host.Process.Within 3 (id (.running 2 true)) := Nat.lt_succ_self 2
  have hends : EndsWhenAwaited Host.obliging id 3 calls {} (.running 2 true) :=
    ⟨nofun, nofun, fun _ _ => rfl, nofun, nofun, nofun, trivial⟩
  obtain ⟨t, ht, -⟩ := reaped_once Host.obliging_lawful hwithin hends
  exact ⟨⟨t, ht⟩, rfl, rfl⟩

/-- A signal without a name ends the process. The first call reaps it and fails, and the next one
and the end of the handle send signals to its number and wait for it again. -/
theorem Handle.asked_after_reaped :
    ¬ ∀ (ω : Type) (host : Host ω) (process : ω → Host.Process), host.Lawful process →
      ∀ fuel w calls, (process w).Within fuel → EndsWhenAwaited host process fuel calls {} w →
        ∃ before last, (life host.recorded fuel calls {} (w, [])).2.2.2 = before ++ [last] ∧
          last.reaps = true ∧ ∀ c ∈ before, c.reaps = false := by
  intro h
  let act : Unit → Act Unit := fun _ => .raise ⟨34, by decide, by decide⟩
  let host : Host (Habitat Unit) := Session.host act fun _ _ => none
  let w : Habitat Unit := { child := { state := () } }
  obtain ⟨before, last, hlog, hlast, -⟩ := h _ host (Habitat.process act)
    (Session.host_lawful fun _ => rfl) 1 w [.wait, .terminate] Nat.one_pos
    ⟨fun _ _ => rfl, nofun, trivial⟩
  have hcalls : [.wait true (.error .invalid), .signal .term, .signal .term,
      .wait false (.error .noChild)] ++ [.signal .kill] = before ++ [last] := hlog
  obtain ⟨-, hkill⟩ := List.append_inj' hcalls rfl
  obtain rfl := List.singleton_inj.mp hkill
  simp [SystemCall.reaps] at hlast

end Coprocess
