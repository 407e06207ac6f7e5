import Coprocess.Child.Handle
import Mathlib.Tactic.SplitIfs

/-!
# Handles of children and the system

The owner of a child waits for it, looks whether it is gone, and sends it signals, and gives up the
handle in the end. Meanwhile the process runs on its own: it is stopped and continued, and it ends
at some moment between two calls of the system, or while the system waits.

* `ProcessEnd.reason?`, `ProcessEnd.told`: what a handle is told of a process that has ended;
* `Host.Process`, `Host.Process.Ages`, `Host.Process.Reports`: the process as the system has it;
* `Host.Lawful`: a system whose calls tell of such a process, for as long as it is not reaped;
* `SystemCall`, `Host.recorded`: the calls that the system gets for the process;
* `Handle.Call`, `Handle.life`: calls of the owner, and all of them up to the last;
* `Handle.life_recorded`: the record changes nothing;
* `Host.Keeps`, `Handle.keeps_life`: what every call of the system keeps, every life keeps.
-/

namespace Coprocess

/-! ## Endings and what is told of them -/

namespace ProcessEnd

/-- Why a child is gone whose process has ended, if a status can tell. -/
def reason? (ending : ProcessEnd) : Option Termination :=
  ending.status.toOption.bind WaitStatus.termination?

/-- What the owner of a child is told when its process is reaped. -/
def told (ending : ProcessEnd) : Except Errno (Option Termination) :=
  ending.status.map WaitStatus.termination?

theorem status_cases (ending : ProcessEnd) :
    (∃ status reason, ending.status = .ok status ∧ status.termination? = some reason ∧
        ending.reason? = some reason ∧ ending.told = .ok (some reason)) ∨
      (ending.status = .error .invalid ∧ ending.reason? = none ∧
        ending.told = .error .invalid) := by
  cases ending with
  | exited code => exact .inl ⟨_, _, rfl, rfl, rfl, rfl⟩
  | signaled s coreDumped =>
    simp only [reason?, told, status]
    cases s.named? with
    | some s => exact .inl ⟨_, _, rfl, rfl, rfl, rfl⟩
    | none => exact .inr ⟨rfl, rfl, rfl⟩

theorem reason?_eq_none_iff {ending : ProcessEnd} :
    ending.reason? = none ↔ ∃ s coreDumped, ending = .signaled s coreDumped ∧ 31 < s.number := by
  cases ending with
  | exited code => simp [reason?, status, Except.toOption, WaitStatus.termination?]
  | signaled s coreDumped =>
    by_cases h : s.number ≤ 31
    · simp [reason?, status, Signal.named?, h, Except.toOption, WaitStatus.termination?]
    · simp [reason?, status, Signal.named?, h, Except.toOption]
      omega

end ProcessEnd

/-! ## Processes -/

/-- The process of a child, as the system has it. -/
inductive Host.Process
  /-- It runs. At most so many times more will a stop or a continuation be reported or a call that
  waits be interrupted, and `ends` says that it will be gone some time. -/
  | running (notices : Nat) (ends : Bool)
  /-- It is gone, and was not waited for. -/
  | gone (ending : ProcessEnd)
  /-- It was waited for. Its number may belong to another process. -/
  | reaped

namespace Host.Process

/-- It is not reaped, and will be after at most `n` reports. -/
def Within (n : Nat) : Process → Prop
  | running notices _ => notices < n
  | gone _ => 0 < n
  | reaped => False

/-- It is gone or will be. -/
def Ends : Process → Prop
  | running _ ends => ends = true
  | _ => True

/-- What a process that is not reaped can become at any moment. -/
inductive Ages : Process → Process → Prop
  | runs {notices notices' : Nat} {ends ends' : Bool} (hle : notices' ≤ notices) :
      Ages (running notices ends) (running notices' ends')
  | ends {notices : Nat} {ends : Bool} (ending : ProcessEnd) :
      Ages (running notices ends) (gone ending)
  | stays (ending : ProcessEnd) : Ages (gone ending) (gone ending)

/-- What a call that waits answers of a process, and what is left of it. -/
inductive Reports (block : Bool) : Process → Except Errno WaitStatus → Process → Prop
  | reaps (ending : ProcessEnd) : Reports block (gone ending) ending.status reaped
  | notice {notices : Nat} {ends : Bool} {status : WaitStatus} (h : status.termination? = none) :
      Reports block (running (notices + 1) ends) (.ok status) (running notices ends)
  | interrupted {notices : Nat} {ends : Bool} (hblock : block = true) :
      Reports block (running (notices + 1) ends) (.error .interrupted) (running notices ends)
  | nothing {notices : Nat} {ends : Bool} {status : WaitStatus} (hblock : block = false)
      (h : status.termination? = none) :
      Reports block (running notices ends) (.ok status) (running notices ends)

variable {p q : Process} {n : Nat}

theorem Within.ne_reaped (h : p.Within n) : p ≠ .reaped := by
  rintro rfl
  exact h

theorem not_within_zero (p : Process) : ¬ p.Within 0 := by
  cases p with
  | running | gone => exact Nat.not_lt_zero _
  | reaped => exact not_false

theorem Ages.within (h : p.Ages q) (hp : p.Within n) : q.Within n := by
  cases h with
  | runs hle => exact Nat.lt_of_le_of_lt hle hp
  | ends => exact Nat.zero_lt_of_lt hp
  | stays => exact hp

theorem Reports.of_ends {block : Bool} {answer : Except Errno WaitStatus}
    (h : Reports block p answer q) (hp : p.Ends) : q.Ends := by
  cases h with
  | reaps => trivial
  | notice | interrupted | nothing => exact hp

end Host.Process

/-! ## Systems -/

namespace Host

variable {ω : Type}

/-- A system whose calls tell of a process. While it is not reaped, signals are sent, and a call
that waits answers what there is to report; between two calls, and while a call waits, the process
may do anything, but a call that blocks is made of a process that ends, and then it does. A process
that is reaped stays so, and nothing is said of what the calls answer then. -/
structure Lawful (host : Host ω) (process : ω → Process) : Prop where
  wait : ∀ block w, process w ≠ .reaped → (block = true → (process w).Ends) →
    ∃ p, (process w).Ages p ∧ (block = true → p.Ends) ∧
      p.Reports block (host.wait block w).1 (process (host.wait block w).2)
  signal : ∀ s w, process w ≠ .reaped →
    (host.signal s w).1 = .ok () ∧ (process w).Ages (process (host.signal s w).2)
  kill : ∀ w, process w ≠ .reaped → (process (host.signal .kill w).2).Ends
  pause : ∀ milliseconds w, process w ≠ .reaped →
    (process w).Ages (process (host.pause milliseconds w))
  wait_reaped : ∀ block w, process w = .reaped → process (host.wait block w).2 = .reaped
  signal_reaped : ∀ s w, process w = .reaped → process (host.signal s w).2 = .reaped
  pause_reaped : ∀ milliseconds w, process w = .reaped →
    process (host.pause milliseconds w) = .reaped

/-- Whatever is asked of the system, a property of its state stays. -/
structure Keeps (host : Host ω) (P : ω → Prop) : Prop where
  wait : ∀ block w, P w → P (host.wait block w).2
  signal : ∀ s w, P w → P (host.signal s w).2
  pause : ∀ milliseconds w, P w → P (host.pause milliseconds w)

end Host

/-- A call that a system gets for a process. -/
inductive SystemCall
  /-- Waits for the process or looks, and gets an answer. -/
  | wait (block : Bool) (answer : Except Errno WaitStatus)
  | signal (s : NamedSignal)

/-- The call takes a process off the system that is gone. It may still fail, when the signal has no
name that ended the process. -/
def SystemCall.reaps : SystemCall → Bool
  | wait _ (.ok status) => status.termination?.isSome
  | wait _ (.error e) => e = .invalid
  | signal _ => false

theorem SystemCall.reaps_wait_status (block : Bool) (ending : ProcessEnd) :
    (wait block ending.status).reaps = true := by
  rcases ending.status_cases with ⟨status, reason, hs, ht, -, -⟩ | ⟨hs, -, -⟩
  · rw [hs, reaps, ht]
    rfl
  · rw [hs]
    rfl

namespace Host

variable {ω : Type} (host : Host ω)

/-- The system with a record of the calls for the process. -/
def recorded : Host (ω × List SystemCall) where
  wait block w :=
    let answer := host.wait block w.1
    (answer.1, answer.2, w.2 ++ [.wait block answer.1])
  signal s w :=
    let answer := host.signal s w.1
    (answer.1, answer.2, w.2 ++ [.signal s])
  pause milliseconds w := (host.pause milliseconds w.1, w.2)

@[simp] theorem recorded_wait (block : Bool) (w : ω × List SystemCall) :
    host.recorded.wait block w =
      ((host.wait block w.1).1, (host.wait block w.1).2,
        w.2 ++ [.wait block (host.wait block w.1).1]) := rfl

@[simp] theorem recorded_signal (s : NamedSignal) (w : ω × List SystemCall) :
    host.recorded.signal s w =
      ((host.signal s w.1).1, (host.signal s w.1).2, w.2 ++ [.signal s]) := rfl

@[simp] theorem recorded_pause (milliseconds : Nat) (w : ω × List SystemCall) :
    host.recorded.pause milliseconds w = (host.pause milliseconds w.1, w.2) := rfl

end Host

namespace Handle

variable {ω : Type}

/-! ## The life of a handle -/

/-- What the owner of a child can do with its handle. -/
inductive Call
  | wait
  | tryWait
  | terminate
  | kill
  deriving DecidableEq

/-- What a call returns, if it does: a failure, or why the child is gone if that is known. -/
abbrev Answer := Option (Except Errno (Option Termination))

/-- What a call returns when the child is known to be gone. -/
def Call.answer (reason : Termination) : Call → Answer
  | .terminate => some (.ok none)
  | _ => some (.ok (some reason))

/-- Does what a call asks for. -/
def perform (host : Host ω) (fuel : Nat) (h : Handle) (w : ω) : Call → Answer × Handle × ω
  | .wait =>
    let (answer, h, w) := h.wait host fuel w
    (answer.map (·.map some), h, w)
  | .tryWait =>
    let (answer, h, w) := h.tryWait host w
    (some answer, h, w)
  | .terminate =>
    let (answer, w) := h.terminate host w
    (some (answer.map fun _ => none), h, w)
  | .kill =>
    let (answer, h, w) := h.kill host fuel w
    (answer.map (·.map some), h, w)

/-- Does what some calls ask for, one after the other, and then gives up the handle. -/
def life (host : Host ω) (fuel : Nat) : List Call → Handle → ω → List Answer × Handle × ω
  | [], h, w => ([], h.drop host fuel w)
  | c :: cs, h, w =>
    let (answer, h, w) := h.perform host fuel w c
    let (answers, h, w) := life host fuel cs h w
    (answer :: answers, h, w)

/-- Whenever the process is waited for, and not known to be gone, it ends some time. -/
def EndsWhenAwaited (host : Host ω) (process : ω → Host.Process) (fuel : Nat) :
    List Call → Handle → ω → Prop
  | [], _, _ => True
  | c :: cs, h, w =>
    (c = .wait → h.reaped = none → (process w).Ends) ∧
      let r := h.perform host fuel w c
      EndsWhenAwaited host process fuel cs r.2.1 r.2.2

/-! ## The record changes nothing -/

section

/-- What is left when the record is forgotten. -/
def forget {α : Type} (r : α × Handle × ω × List SystemCall) : α × Handle × ω :=
  (r.1, r.2.1, r.2.2.1)

variable (host : Host ω) (fuel : Nat)

theorem waitUntilGone_recorded (w : ω × List SystemCall) :
    waitUntilGone host fuel w.1 =
      ((waitUntilGone host.recorded fuel w).1, (waitUntilGone host.recorded fuel w).2.1) := by
  induction fuel generalizing w with
  | zero => rfl
  | succ fuel ih =>
    simp only [waitUntilGone, Host.recorded_wait]
    rcases host.wait true w.1 with ⟨e | status, v⟩
    · by_cases he : e = .interrupted
      · subst he
        exact ih (_, _)
      · simp only
    · simp only
      cases status.termination? with
      | some reason => rfl
      | none => exact ih (_, _)

theorem wait_recorded (h : Handle) (w : ω × List SystemCall) :
    h.wait host fuel w.1 = forget (h.wait host.recorded fuel w) := by
  unfold wait
  cases h.reaped with
  | some reason => rfl
  | none =>
    simp only [waitUntilGone_recorded]
    rcases waitUntilGone host.recorded fuel w with ⟨_ | _ | _, v⟩ <;> rfl

theorem tryWait_recorded (h : Handle) (w : ω × List SystemCall) :
    h.tryWait host w.1 = forget (h.tryWait host.recorded w) := by
  unfold tryWait
  cases h.reaped with
  | some reason => rfl
  | none =>
    simp only [Host.recorded_wait]
    rcases host.wait false w.1 with ⟨_ | _, v⟩ <;> rfl

theorem terminate_recorded (h : Handle) (w : ω × List SystemCall) :
    h.terminate host w.1 =
      ((h.terminate host.recorded w).1, (h.terminate host.recorded w).2.1) := by
  unfold terminate
  split_ifs <;> rfl

theorem kill_recorded (h : Handle) (w : ω × List SystemCall) :
    h.kill host fuel w.1 = forget (h.kill host.recorded fuel w) := by
  unfold kill
  split_ifs
  · exact wait_recorded host fuel h w
  · simp only [Host.recorded_signal]
    rcases host.signal .kill w.1 with ⟨_ | _, v⟩
    · rfl
    · exact wait_recorded host fuel h (_, _)

theorem perform_recorded (h : Handle) (w : ω × List SystemCall) (c : Call) :
    h.perform host fuel w.1 c = forget (h.perform host.recorded fuel w c) := by
  cases c with
  | wait => simp only [perform, wait_recorded, forget]
  | tryWait => simp only [perform, tryWait_recorded, forget]
  | terminate => simp only [perform, terminate_recorded, forget]
  | kill => simp only [perform, kill_recorded, forget]

theorem reapOrKill_recorded (h : Handle) (w : ω × List SystemCall) :
    h.reapOrKill host fuel w.1 =
      ((h.reapOrKill host.recorded fuel w).1, (h.reapOrKill host.recorded fuel w).2.1) := by
  unfold reapOrKill
  rw [tryWait_recorded]
  rcases h.tryWait host.recorded w with ⟨_ | _ | _, h, v⟩
  · simp only [forget, kill_recorded]
  · simp only [forget, kill_recorded]
  · rfl

theorem drop_recorded (h : Handle) (w : ω × List SystemCall) :
    h.drop host fuel w.1 =
      ((h.drop host.recorded fuel w).1, (h.drop host.recorded fuel w).2.1) := by
  unfold drop
  split_ifs
  · rfl
  · rw [terminate_recorded, ← reapOrKill_recorded, Host.recorded_pause]

theorem life_recorded (calls : List Call) (h : Handle) (w : ω × List SystemCall) :
    life host fuel calls h w.1 = forget (life host.recorded fuel calls h w) := by
  induction calls generalizing h w with
  | nil => simp only [life, drop_recorded, forget]
  | cons c cs ih => simp only [life, perform_recorded, forget, ih]

end

/-! ## What every call keeps -/

section

variable {host : Host ω} {P : ω → Prop} {fuel : Nat} {h : Handle} {w : ω}

theorem wait_of_unknown (host : Host ω) (fuel : Nat) (w : ω) :
    (wait host fuel {} w).2.2 = (waitUntilGone host fuel w).2 := by
  simp only [wait]
  rcases waitUntilGone host fuel w with ⟨_ | _ | _, v⟩ <;> rfl

theorem tryWait_of_unknown (host : Host ω) (w : ω) :
    (tryWait host {} w).2.2 = (host.wait false w).2 := by
  simp only [tryWait]
  rcases host.wait false w with ⟨_ | _, v⟩ <;> rfl

theorem keeps_waitUntilGone_succ (hrest : ∀ v, P v → P (waitUntilGone host fuel v).2)
    (hnext : P (host.wait true w).2) : P (waitUntilGone host (fuel + 1) w).2 := by
  rw [waitUntilGone]
  generalize host.wait true w = answer at hnext ⊢
  rcases answer with ⟨e | status, v⟩
  · by_cases he : e = .interrupted
    · subst he
      exact hrest v hnext
    · simpa only using hnext
  · simp only
    cases status.termination? with
    | some reason => exact hnext
    | none => exact hrest v hnext

theorem keeps_waitUntilGone (hP : host.Keeps P) (hw : P w) : P (waitUntilGone host fuel w).2 := by
  induction fuel generalizing w with
  | zero => exact hw
  | succ fuel ih => exact keeps_waitUntilGone_succ (fun _ hv => ih hv) (hP.wait true w hw)

theorem keeps_wait (hP : host.Keeps P) (hw : P w) : P (h.wait host fuel w).2.2 := by
  rcases h with ⟨_ | reason⟩
  · exact wait_of_unknown host fuel w ▸ keeps_waitUntilGone hP hw
  · exact hw

theorem keeps_tryWait (hP : host.Keeps P) (hw : P w) : P (h.tryWait host w).2.2 := by
  rcases h with ⟨_ | reason⟩
  · exact tryWait_of_unknown host w ▸ hP.wait false w hw
  · exact hw

theorem keeps_terminate (hP : host.Keeps P) (hw : P w) : P (h.terminate host w).2 := by
  rcases h with ⟨_ | reason⟩
  · exact hP.signal .term w hw
  · exact hw

theorem keeps_kill_of_unknown (hP : host.Keeps P) (hnext : P (host.signal .kill w).2) :
    P (kill host fuel {} w).2.2 := by
  simp only [kill, Option.isSome_none, Bool.false_eq_true, if_false]
  generalize host.signal .kill w = answer at hnext ⊢
  rcases answer with ⟨_ | _, v⟩
  · exact hnext
  · exact keeps_wait hP hnext

theorem keeps_kill (hP : host.Keeps P) (hw : P w) : P (h.kill host fuel w).2.2 := by
  rcases h with ⟨_ | reason⟩
  · exact keeps_kill_of_unknown hP (hP.signal .kill w hw)
  · exact hw

theorem keeps_perform (hP : host.Keeps P) (hw : P w) (c : Call) :
    P (h.perform host fuel w c).2.2 := by
  cases c with
  | wait => exact keeps_wait hP hw
  | tryWait => exact keeps_tryWait hP hw
  | terminate => exact keeps_terminate hP hw
  | kill => exact keeps_kill hP hw

theorem keeps_reapOrKill (hP : host.Keeps P) (hw : P w) : P (h.reapOrKill host fuel w).2 := by
  have htry : P (h.tryWait host w).2.2 := keeps_tryWait hP hw
  unfold reapOrKill
  generalize h.tryWait host w = answer at htry ⊢
  rcases answer with ⟨_ | _ | _, h, v⟩
  · exact keeps_kill hP htry
  · exact keeps_kill hP htry
  · exact htry

theorem keeps_drop_of_unknown (hP : host.Keeps P) (hnext : P (host.signal .term w).2) :
    P (drop host fuel {} w).2 :=
  keeps_reapOrKill hP (hP.pause graceMilliseconds _ hnext)

theorem keeps_drop (hP : host.Keeps P) (hw : P w) : P (h.drop host fuel w).2 := by
  rcases h with ⟨_ | reason⟩
  · exact keeps_drop_of_unknown hP (hP.signal .term w hw)
  · exact hw

theorem keeps_life (hP : host.Keeps P) (calls : List Call) (hw : P w) :
    P (life host fuel calls h w).2.2 := by
  induction calls generalizing h w with
  | nil => exact keeps_drop hP hw
  | cons c cs ih => exact ih (keeps_perform hP hw c)

end

end Handle

end Coprocess
