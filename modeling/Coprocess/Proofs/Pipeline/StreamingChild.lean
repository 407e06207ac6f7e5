import Coprocess.Proofs.Pipeline.Deadlock

/-!
# A clerk

A clerk reads what is there and answers each line with an empty line.

* `Pipeline.clerk`, `Pipeline.Attends`: its program, and what holds of it in every run;
* **`Pipeline.streams_clerk`**: a clerk streams, whatever the others do.
-/

namespace Coprocess.Pipeline

/-- A child that holds the number of lines it has still to answer, or is done. -/
def clerk (most : Nat) : Option Nat → Act (Option Nat)
  | some 0 => .read most fun bytes => bytes.map countLf
  | some (n + 1) => .write [lf] (some n) (some (n + 1))
  | none => .exit 0

/-- What holds of a clerk: it has written empty lines only, and has answered what it does not hold
any more. -/
def Attends (p : Pipeline (Option Nat)) (t : Transcript) : Prop :=
  (∀ b ∈ t.answered, b = lf) ∧ p.child.wakeAt = 0 ∧
    match p.child.state with
    | some n =>
      p.child.ended = none ∧ p.input.readable = true ∧ p.output.writable = true ∧
        p.child.sent ≤ 1 ∧ p.child.sent ≤ n ∧
        countLf t.answered + n = countLf t.taken + p.child.sent
    | none =>
      (p.child.ended.isSome = true → p.output.writable = false) ∧ t.atEnd = true ∧
        countLf t.answered = countLf t.taken

section

variable {most : Nat} {Allowed : Pipeline (Option Nat) → Transcript → Prop} {s₀ : Source}
  {sink₀ : Sink} {published : List Parcel} {taken : List Descriptor}
  {log : List (Message Descriptor)} {before : Bytes} {now : Nat}
  {s p p' : Pipeline (Option Nat)} {t : Transcript}

/-! ## Every step -/

theorem attends_of_effect {c : Child (Option Nat)} {i o : Pipe} {bytes answered : Bytes}
    (he : Child.Effect p.input i p.output o bytes answered)
    (h : Attends { p with child := c, input := i, output := o }
      ⟨t.taken ++ bytes, t.answered ++ answered, t.atEnd || p.meetsEnd (clerk most)⟩) :
    Attends { p with child := c, input := i, output := o }
      (record (clerk most) t p { p with child := c, input := i, output := o } .child) := by
  rw [record_child he]
  exact h

theorem attends_read (hs : p.stepOf (clerk most) now .child = some p')
    (hp : p.child.state = some 0) (h : Attends p t) :
    Attends p' (record (clerk most) t p p' .child) := by
  obtain ⟨hlf, hawake, hst⟩ := h
  simp only [hp] at hst
  obtain ⟨hgoing, hr, hw, -, hsent, hcount⟩ := hst
  obtain ⟨⟨c, i, o⟩, hstep, rfl⟩ := Option.map_eq_some_iff.mp hs
  simp only [Child.step, hgoing, hawake, hp, clerk, Child.stepRead, hr] at hstep
  cases hd : p.input.read most with
  | data bytes i =>
    simp only [hd] at hstep
    cases hstep
    refine attends_of_effect (Child.Effect.read hd p.output) ⟨by simpa using hlf, hawake, ?_⟩
    refine ⟨hgoing, ?_, hw, Nat.zero_le _, Nat.zero_le _, ?_⟩
    · obtain ⟨-, hi, -, -⟩ := Pipe.read_data hd
      rw [hi]
      exact hr
    · change countLf (t.answered ++ []) + countLf bytes = countLf (t.taken ++ bytes) + 0
      rw [List.append_nil, countLf_append]
      omega
  | empty =>
    simp only [hd] at hstep
    cases hstep
  | ended =>
    obtain ⟨he, hclosed⟩ := Pipe.read_ended hd
    simp only [hd] at hstep
    cases hstep
    have hmeets : p.meetsEnd (clerk most) = true := by
      simp [meetsEnd, hp, clerk, hr, he, hclosed]
    refine attends_of_effect (Child.Effect.still _ _) ⟨by simpa using hlf, hawake, ?_⟩
    refine ⟨fun hend => ?_, ?_, ?_⟩
    · simp [Child.goTo, hgoing] at hend
    · simp [hmeets]
    · change countLf (t.answered ++ []) = countLf (t.taken ++ [])
      rw [List.append_nil, List.append_nil]
      omega

theorem attends_write {n : Nat} (hs : p.stepOf (clerk most) now .child = some p')
    (hp : p.child.state = some (n + 1)) (h : Attends p t) :
    Attends p' (record (clerk most) t p p' .child) := by
  obtain ⟨hlf, hawake, hst⟩ := h
  simp only [hp] at hst
  obtain ⟨hgoing, hr, hw, hsent, -, hcount⟩ := hst
  obtain ⟨⟨c, i, o⟩, hstep, rfl⟩ := Option.map_eq_some_iff.mp hs
  simp only [Child.step, hgoing, hawake, hp, clerk, hw] at hstep
  by_cases hone : p.child.sent = 1
  · -- The line feed is written: the line is answered.
    simp only [hone] at hstep
    cases hstep
    refine attends_of_effect (Child.Effect.still _ _) ⟨by simpa using hlf, hawake, ?_⟩
    refine ⟨hgoing, hr, hw, Nat.zero_le _, Nat.zero_le _, ?_⟩
    change countLf (t.answered ++ []) + n = countLf (t.taken ++ []) + 0
    rw [List.append_nil, List.append_nil]
    omega
  · have hzero : p.child.sent = 0 := by omega
    simp only [hzero, List.drop_zero] at hstep
    cases hwr : p.output.write [lf] with
    | moved count o =>
      have he := Child.Effect.write hw hwr p.input
      obtain ⟨hc, ho, -, hroom⟩ := Pipe.write_moved hwr
      have htake : [lf].take p.output.room = [lf] := List.take_of_length_le hroom
      rw [htake] at he hc
      obtain rfl : count = 1 := hc
      simp only [hwr] at hstep
      cases hstep
      refine attends_of_effect he ⟨fun b hb => ?_, rfl, ?_⟩
      · rcases List.mem_append.mp hb with hb | hb
        · exact hlf b hb
        · exact List.mem_singleton.mp hb
      refine ⟨rfl, hr, ?_, Nat.le_refl 1, Nat.le_add_left 1 n, ?_⟩
      · rw [ho]
        exact hw
      · change countLf (t.answered ++ [lf]) + (n + 1) = countLf (t.taken ++ []) + 1
        have hone : countLf [lf] = 1 := rfl
        rw [List.append_nil, countLf_append, hone]
        omega
    | full =>
      simp only [hwr] at hstep
      cases hstep
    | broken =>
      simp only [hwr] at hstep
      cases hstep
      refine attends_of_effect (Child.Effect.still _ _) ⟨by simpa using hlf, hawake, ?_⟩
      refine ⟨hgoing, hr, hw, Nat.zero_le _, Nat.zero_le _, ?_⟩
      change countLf (t.answered ++ []) + (n + 1) = countLf (t.taken ++ []) + 0
      rw [List.append_nil, List.append_nil]
      omega

theorem attends_exit (hs : p.stepOf (clerk most) now .child = some p')
    (hp : p.child.state = none) (h : Attends p t) :
    Attends p' (record (clerk most) t p p' .child) := by
  obtain ⟨hlf, hawake, hst⟩ := h
  simp only [hp] at hst
  obtain ⟨hclosed, hend, hcount⟩ := hst
  obtain ⟨⟨c, i, o⟩, hstep, rfl⟩ := Option.map_eq_some_iff.mp hs
  simp only [Child.step, hawake, hp, clerk] at hstep
  split_ifs at hstep with hc
  cases hstep
  refine attends_of_effect (Child.Effect.still _ _).closeInput.closeOutput
    ⟨by simpa using hlf, hawake, ?_⟩
  simp only [hp]
  exact ⟨fun _ => rfl, by simp [hend], by simpa using hcount⟩

theorem attends_step {actor : Actor} (hs : p.stepOf (clerk most) now actor = some p')
    (hinv : p.Inv s₀ sink₀ published taken log before t) (h : Attends p t) :
    Attends p' (record (clerk most) t p p' actor) := by
  cases actor with
  | feeder =>
    obtain ⟨⟨f, q, i⟩, hstep, rfl⟩ := Option.map_eq_some_iff.mp hs
    obtain ⟨_, _, _, he, -⟩ := Feeder.step_inv hstep hinv.feeder
    unfold Attends at h ⊢
    simp only [he.readable]
    exact h
  | child =>
    cases hp : p.child.state with
    | none => exact attends_exit hs hp h
    | some n =>
      cases n with
      | zero => exact attends_read hs hp h
      | succ n => exact attends_write hs hp h
  | collector =>
    obtain ⟨⟨c, q, o⟩, hstep, rfl⟩ := Option.map_eq_some_iff.mp hs
    have he := Collector.step_progress hstep hinv.collector.stream.line
    unfold Attends at h ⊢
    simp only [he.writable]
    exact h

/-! ## Every run -/

theorem Attends.length_lines (h : Attends p t) :
    (lines t.answered).length = countLf t.answered := by
  refine length_lines_of_terminated ?_
  cases hlast : t.answered.getLast? with
  | none => exact .inl (List.getLast?_eq_none_iff.mp hlast)
  | some b => exact .inr (by rw [hlast, h.1 b (List.mem_of_getLast? hlast)])

/-- A clerk waits for room, or for input when it has answered everything, or it has ended. -/
theorem Attends.prompt (h : Attends p t)
    (hstep : p.child.step (clerk most) 0 p.input p.output = none) :
    (p.output.readable = true ∧ p.output.room = 0) ∨
      (p.input.content = [] ∧ p.input.writable = true ∧ countLf t.answered = countLf t.taken) ∨
      p.output.writable = false := by
  obtain ⟨-, hawake, hst⟩ := h
  cases hp : p.child.state with
  | none =>
    simp only [hp] at hst
    refine .inr (.inr (hst.1 ?_))
    by_contra hend
    simp [Child.step, hp, clerk, hawake, hend] at hstep
  | some n =>
    simp only [hp] at hst
    obtain ⟨hgoing, hr, hw, hsent, hle, hcount⟩ := hst
    cases n with
    | zero =>
      simp only [Child.step, hgoing, hawake, hp, clerk, Child.stepRead, hr] at hstep
      cases hd : p.input.read most with
      | data | ended =>
        simp only [hd] at hstep
        cases hstep
      | empty =>
        obtain ⟨he, hopen⟩ := Pipe.read_empty hd
        exact .inr (.inl ⟨he, hopen, by omega⟩)
    | succ n =>
      simp only [Child.step, hgoing, hawake, hp, clerk, hw] at hstep
      by_cases hone : p.child.sent = 1
      · simp [hone] at hstep
      have hzero : p.child.sent = 0 := by omega
      simp only [hzero, List.drop_zero] at hstep
      cases hwr : p.output.write [lf] with
      | moved | broken =>
        simp only [hwr] at hstep
        cases hstep
      | full => exact .inl (Pipe.write_full hwr)

theorem Attends.streams (h : Attends p t) : Streams (clerk most) p t := by
  refine ⟨⟨?_, ?_⟩, fun hblocked => h.prompt (Option.map_eq_none_iff.mp (hblocked 0))⟩
  · have hst := h.2.2
    rw [h.length_lines]
    cases hp : p.child.state <;> simp only [hp] at hst <;> omega
  · intro hw
    have hst := h.2.2
    rw [h.length_lines]
    cases hp : p.child.state with
    | some n =>
      simp only [hp] at hst
      rw [hst.2.2.1] at hw
      cases hw
    | none =>
      simp only [hp] at hst
      exact hst.2

/-- **A clerk streams in every run.** -/
theorem streams_clerk (hr : Reaches (clerk most) Allowed s p t)
    (hinv : s.Inv s₀ sink₀ published taken log before {}) (ha : Attends s {}) :
    Attends p t ∧ Reaches (clerk most) (Streams (clerk most)) s p t := by
  induction hr with
  | start => exact ⟨ha, .start ha.streams⟩
  | step hr now actor hs _ ih =>
    obtain ⟨ht, hstreams⟩ := ih
    obtain ⟨_, _, _, _, hp⟩ := reaches_inv hr hinv
    have ht' := attends_step hs hp ht
    exact ⟨ht', .step hstreams now actor hs ht'.streams⟩

end

end Coprocess.Pipeline
