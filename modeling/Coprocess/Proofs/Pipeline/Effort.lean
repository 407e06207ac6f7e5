import Coprocess.Proofs.Feeder.Moves
import Coprocess.Proofs.Pipeline.Interleaving

/-!
# How long a pipeline works

Each step of a feeder or a collector uses up some of the work that is left to it. What a child
writes is new work for the collector, so that the work of a run is bounded by what the child may
write.

* `Writer.effort`, `Feeder.effort`: what is left to a writer and a feeder;
* **`Feeder.step_effort`**: each step of a feeder lowers it;
* `Pipeline.effort`, **`Pipeline.step_effort`**: a number that no step raises, and that each step of
  the feeder or the collector lowers.
-/

namespace Coprocess

/-! ## Writers -/

namespace Writer

variable {w w' : Writer} {p p' : Pipe}

/-- How many steps a call takes that moves no bytes. -/
def Call.rank : Call → Nat
  | .idle => 0
  | .flushing | .sending _ => 1
  | .makingRoom _ => 2

/-- The bytes to be pushed out, and the steps of the call that move none. -/
def effort (w : Writer) : Nat := w.backlog.length + w.call.rank

theorem effort_of_idle (h : w.call = .idle) : w.effort = w.held.size := by
  simp [effort, backlog_of_idle h, h, Call.rank]

theorem effort_flush (w : Writer) : w.flush.effort = w.held.size + 1 := by
  rw [effort, backlog_flush]
  simp [flush, Call.rank]

theorem effort_place_le (w : Writer) (data : Bytes) :
    (w.place data).effort ≤ w.held.size + data.length + 1 := by
  rw [effort, backlog_place, List.length_append, Array.length_toList]
  unfold place
  split_ifs <;> simp [hold, Call.rank]

theorem effort_write_le (w : Writer) (data : Bytes) :
    (w.write data).effort ≤ w.held.size + data.length + 2 := by
  rw [effort, backlog_write, List.length_append, Array.length_toList]
  refine Nat.add_le_add_left ?_ _
  cases (w.write data).call <;> simp [Call.rank]

theorem drop_length_lt {data : Bytes} {count : Nat} (h : p.write data = .moved count p')
    (hne : data ≠ []) : (data.drop count).length < data.length := by
  obtain ⟨rfl, -, -, hroom⟩ := Pipe.write_moved h
  have := List.length_pos_iff.mpr hne
  rw [List.length_drop, List.length_take]
  omega

theorem extract_size_lt {count : Nat}
    (h : p.write (w.held.extract 0 p.room).toList = .moved count p')
    (hne : w.held.isEmpty = false) : (w.held.extract count w.held.size).size < w.held.size := by
  have hsize : 0 < w.held.size := Array.size_pos_iff.mpr (by simpa using hne)
  obtain ⟨rfl, -, -, hroom⟩ := Pipe.write_moved h
  simp only [Array.size_extract, List.length_take, Array.length_toList]
  omega

theorem step_effort (h : w.step p = .moved w' p') (hc : w.call ≠ .idle) :
    w'.effort < w.effort := by
  unfold step at h
  cases hcall : w.call with
  | idle => exact absurd hcall hc
  | sending data =>
    simp only [hcall] at h
    split_ifs at h with he
    · cases h
      simp only [effort, backlog, hcall, Call.rank, List.length_append]
      omega
    · cases hw : p.write data with
      | moved count q =>
        have hlt := drop_length_lt hw (by simpa using he)
        simp only [hw] at h
        cases h
        simp only [effort, backlog, hcall, Call.rank, List.length_append]
        omega
      | full | broken =>
        simp only [hw] at h
        cases h
  | flushing =>
    simp only [hcall] at h
    split_ifs at h with he
    · cases h
      simp [effort, backlog, hcall, Call.rank]
    · cases hw : p.write (w.held.extract 0 p.room).toList with
      | moved count q =>
        have hlt := extract_size_lt hw (by simpa using he)
        simp only [hw] at h
        cases h
        simp only [effort, backlog, hcall, Call.rank, Array.length_toList]
        omega
      | full | broken =>
        simp only [hw] at h
        cases h
  | makingRoom data =>
    simp only [hcall] at h
    split_ifs at h with he
    · cases h
      refine Nat.lt_of_le_of_lt (effort_place_le _ data) ?_
      simp only [effort, backlog, hcall, Call.rank, List.length_append, Array.length_toList]
      omega
    · cases hw : p.write (w.held.extract 0 p.room).toList with
      | moved count q =>
        have hlt := extract_size_lt hw (by simpa using he)
        simp only [hw] at h
        cases h
        simp only [effort, backlog, hcall, Call.rank, List.length_append, Array.length_toList]
        omega
      | full | broken =>
        simp only [hw] at h
        cases h

theorem step_broken (h : w.step p = .broken w') : w' = { w with call := .idle } := by
  unfold step at h
  cases hcall : w.call with
  | idle => simp [hcall] at h
  | sending data =>
    simp only [hcall] at h
    split_ifs at h
    split at h <;> cases h
    rfl
  | flushing | makingRoom =>
    simp only [hcall] at h
    split_ifs at h
    split at h <;> cases h
    rfl

theorem flush_effort_le (h : w.step p = .broken w') (hc : w.call ≠ .idle) :
    w'.flush.effort ≤ w.effort := by
  rw [effort_flush, step_broken h]
  cases hcall : w.call with
  | idle => exact absurd hcall hc
  | flushing | sending | makingRoom =>
    simp only [effort, backlog, hcall, Call.rank, List.length_append, Array.length_toList]
    omega

end Writer

/-! ## Feeders -/

namespace Feeder

variable {f f' : Feeder} {q q' : Queue Descriptor} {p p' : Pipe}

/-- What is left of the lines of a source. -/
def ahead (s : Source) : Nat := (payloads s.parcels).length + 9 * s.parcels.length

/-- What is left to a phase, apart from the bytes that its writer holds. -/
def Phase.effort (s : Source) : Phase → Nat
  | .fetching => ahead s + 6
  | .counting => ahead s + 8
  | .writing payload => ahead s + payload.length + 11
  | .awaiting parcel => ahead s + parcel.payload.length + 12
  | .offering parcel => ahead s + parcel.payload.length + 14
  | .ending => 4
  | .closing => 2
  | .abandoning _ => 1
  | .returned _ => 0

/-- What is left to a feeder. -/
def effort (f : Feeder) : Nat := f.writer.effort + f.phase.effort f.source

theorem ahead_of_ok {s s' : Source} {parcel : Parcel} (h : s.next = some (.ok parcel, s')) :
    ahead s = ahead s' + parcel.payload.length + 9 := by
  unfold ahead
  rw [Source.parcels_of_ok h, payloads_cons, List.length_append, List.length_cons]
  omega

theorem step_waiting (h : f.step q p = some (f', q', p')) :
    q'.waiting.toList.length ≤ q.waiting.toList.length + 1 := by
  cases move_of_step h with
  | publish | finish => simp
  | _ => exact Nat.le_succ _

/-- **Each step of a feeder is one of those that are left to it.** -/
theorem step_effort {s₀ : Source} {published : List Parcel} {log : List (Message Descriptor)}
    {sent : Bytes} (h : f.step q p = some (f', q', p')) (hinv : f.Inv s₀ published log sent q p) :
    f'.effort < f.effort := by
  have hgoing := going_of_step h hinv
  cases move_of_step h with
  | push hi hw => exact Nat.add_lt_add_right (Writer.step_effort hw hi) _
  | broken hi hw hp =>
    have hle := Writer.flush_effort_le hw hi
    rw [Writer.effort_flush] at hle
    simp only [effort, abandon, Writer.effort_flush]
    cases hph : f.phase with
    | abandoning e => exact absurd hph (hp e)
    | returned result => simp [result?, hph] at hgoing
    | fetching | counting | writing | awaiting | offering | ending | closing =>
      simp only [Phase.effort]
      omega
  | brokenAgain hi hw hp =>
    have hle := Writer.flush_effort_le hw hi
    have hidle := Writer.effort_of_idle (congrArg Writer.call (Writer.step_broken hw))
    rw [Writer.effort_flush] at hle
    simp only [effort, hp, hidle, Phase.effort]
    omega
  | fetch hi hp hn =>
    have ha := ahead_of_ok hn
    simp only [effort, hp, Writer.effort_of_idle hi, Phase.effort]
    omega
  | @send payload hi hp =>
    have hle := Writer.effort_write_le f.writer payload
    simp only [effort, hp, Writer.effort_of_idle hi, Phase.effort]
    omega
  | publish hi hp | desert hi hp =>
    rcases hp with hp | hp <;>
      simp only [effort, abandon, hp, Writer.effort_of_idle hi, Writer.effort_flush,
        Phase.effort] <;>
      omega
  | refuse hi hp | runOut hi hp | await hi hp | skip hi hp | count hi hp | flush hi hp
  | finish hi hp | desertEnd hi hp | close hi hp | leave hi hp =>
    simp only [effort, abandon, hp, Writer.effort_of_idle hi, Writer.effort_flush, Phase.effort]
    omega

end Feeder

/-! ## Pipelines -/

namespace Pipeline

variable {σ : Type} {act : σ → Act σ} {s₀ : Source} {sink₀ : Sink} {published : List Parcel}
  {taken : List Descriptor} {log : List (Message Descriptor)} {before : Bytes} {now : Nat}
  {p p' : Pipeline σ} {t : Transcript}

/-- What is left to the feeder and the collector, before a child that writes `most` bytes at most. A
step of the feeder may queue a message, which is 8 steps of work for the collector, and a byte that
the child writes is 2. -/
def effort (most : Nat) (p : Pipeline σ) (t : Transcript) : Nat :=
  9 * p.feeder.effort + p.collector.work p.queue p.output + 2 * (most - t.answered.length)

/-- **Every step of the feeder and the collector lowers the effort**, and none of the child raises
it. -/
theorem step_effort {most : Nat} {actor : Actor} (hs : p.stepOf act now actor = some p')
    (hinv : p.Inv s₀ sink₀ published taken log before t)
    (hmost : (record act t p p' actor).answered.length ≤ most) :
    effort most p' (record act t p p' actor) ≤ effort most p t ∧
      (actor ≠ .child → effort most p' (record act t p p' actor) < effort most p t) := by
  cases actor with
  | feeder =>
    obtain ⟨⟨f, q, i⟩, hstep, rfl⟩ := Option.map_eq_some_iff.mp hs
    have hlt := Feeder.step_effort hstep hinv.feeder
    have hq := Feeder.step_waiting hstep
    have hless : effort most { p with feeder := f, queue := q, input := i } t <
        effort most p t := by
      simp only [effort, Collector.work]
      omega
    exact ⟨Nat.le_of_lt hless, fun _ => hless⟩
  | collector =>
    obtain ⟨⟨c, q, o⟩, hstep, rfl⟩ := Option.map_eq_some_iff.mp hs
    have hlt := (Collector.step_progress hstep hinv.collector.stream.line).work
    have hless : effort most { p with collector := c, queue := q, output := o } t <
        effort most p t := by
      simp only [effort]
      omega
    exact ⟨Nat.le_of_lt hless, fun _ => hless⟩
  | child =>
    refine ⟨?_, fun h => absurd rfl h⟩
    obtain ⟨⟨c, i, o⟩, hstep, rfl⟩ := Option.map_eq_some_iff.mp hs
    obtain ⟨bytes, answered, he⟩ := Child.step_effect hstep
    rw [record_child he] at hmost ⊢
    have hgrows : o.content = p.output.content ++ answered := he.grows.content
    simp only [effort, Collector.work, hgrows, List.length_append] at hmost ⊢
    omega

end Pipeline

end Coprocess
