import Coprocess.Pipeline.Collector
import Coprocess.Proofs.Collector.Assembly
import Coprocess.Proofs.Pipe.Transfer

/-!
# Steps of a collector

* **`Collector.step_none`**: why a collector waits;
* `Collector.work`, `Collector.Progress`: how many steps a collector may still take, and a step that
  lowers this number and touches only the collector's own ends;
* **`Collector.step_progress`**: every step makes progress.
-/

namespace Coprocess.Collector

variable {q q' : Queue Descriptor} {p p' : Pipe} {c c' : Collector}

/-! ## Waiting -/

/-- **Why a collector waits**: it has returned, the queue is empty, or there is no output to
read. -/
theorem step_none (h : c.step q p = none) (hl : lf ∉ c.reader.line) :
    c.result?.isSome = true ∨
      (c.phase = .consuming ∧ q.waiting.toList = [] ∧ q.producing = true) ∨
      ((c.phase = .peeking ∨ c.phase = .closing ∨
          ∃ d missing ls, c.phase = .gathering d (missing + 1) ls) ∧
        c.reader.buffer = [] ∧ p.content = [] ∧ p.writable = true) := by
  unfold step at h
  cases hp : c.phase with
  | consuming =>
    simp only [hp] at h
    rcases Queue.receive_cases q with ⟨m, waiting, e, hq⟩ | ⟨e, hpr, hq⟩ | ⟨e, -, hq⟩ <;>
      rw [hq] at h
    · cases m <;> cases h
    · exact .inr (.inl ⟨rfl, e, hpr⟩)
    · cases h
  | gathering d missing ls =>
    simp only [hp] at h
    cases missing with
    | zero => cases h
    | succ missing =>
      rcases LineReader.readLine_cases hl p with ⟨l, r', bytes, hr, -⟩ | ⟨r', hr, -⟩ |
        ⟨r', bytes, hr, -⟩ | ⟨hr, -⟩ | ⟨hr, hb⟩ <;> simp only [hr] at h
      · cases h
      · cases h
      · cases h
      · cases h
      · exact .inr (.inr ⟨.inr (.inr ⟨d, missing, ls, rfl⟩), hb⟩)
  | watching =>
    simp only [hp] at h
    cases h
  | peeking | closing =>
    simp only [hp, peek] at h
    rcases LineReader.fill_cases c.reader p with ⟨buffer, bytes, hf, -⟩ | ⟨hf, -⟩ | ⟨hf, hb⟩ <;>
      simp only [hf] at h
    · cases h
    · cases h
    · exact .inr (.inr ⟨by simp, hb⟩)
  | confirming =>
    simp only [hp] at h
    split_ifs at h
  | returned result =>
    refine .inl ?_
    simp [result?, hp]

/-! ## Progress -/

/-- How far a phase is from the next descriptor. -/
def Phase.rank : Phase → Nat
  | .returned _ => 0
  | .consuming | .closing => 1
  | .confirming => 2
  | .peeking => 3
  | .watching => 4
  | .gathering _ _ _ => 5

/-- How many steps a collector may take with what waits in the queue and the pipe. -/
def work (c : Collector) (q : Queue Descriptor) (p : Pipe) : Nat :=
  8 * q.waiting.toList.length + c.phase.rank +
    (2 * (c.reader.buffer ++ p.content).length + c.reader.line.length)

/-- A step from `c` to `c'` leaves the other ends of the queue and the pipe alone, and less is left
to do after it. -/
structure Progress (c : Collector) (q : Queue Descriptor) (p : Pipe) (c' : Collector)
    (q' : Queue Descriptor) (p' : Pipe) : Prop where
  producing : q'.producing = q.producing
  limit : q'.capacity = q.capacity
  writable : p'.writable = p.writable
  capacity : p'.capacity = p.capacity
  work : c'.work q' p' < c.work q p

theorem length_dropConsumer_le (q : Queue Descriptor) :
    q.dropConsumer.waiting.toList.length ≤ q.waiting.toList.length := by
  unfold Queue.dropConsumer
  split_ifs <;> simp

theorem progress_leave {c₁ : Collector} {bytes : Array UInt8} {result : Except Failure Nat}
    (hw : c₁.work q { p with bytes } = c.work q p) (hr : 0 < c₁.phase.rank)
    (h : c₁.leave result q { p with bytes } = (c', q', p')) : Progress c q p c' q' p' := by
  cases h
  refine ⟨rfl, rfl, rfl, rfl, ?_⟩
  have hle := length_dropConsumer_le q
  rw [← hw]
  simp only [work, Phase.rank, Pipe.content_closeReader] at hr ⊢
  omega

theorem progress_consume (hp : c.phase = .consuming) (h : c.step q p = some (c', q', p')) :
    Progress c q p c' q' p' := by
  unfold step at h
  simp only [hp] at h
  rcases Queue.receive_cases q with ⟨m, waiting, e, hq⟩ | ⟨-, -, hq⟩ | ⟨e, -, hq⟩ <;> rw [hq] at h
  · cases m <;> cases h <;> refine ⟨rfl, rfl, rfl, rfl, ?_⟩ <;>
      simp only [work, hp, Phase.rank, e, List.length_cons] <;> omega
  · cases h
  · exact progress_leave rfl (by simp [hp, Phase.rank]) (Option.some.inj h)

theorem progress_deliver {d : Descriptor} {ls : List Bytes} (hp : c.phase = .gathering d 0 ls)
    (h : c.step q p = some (c', q', p')) : Progress c q p c' q' p' := by
  unfold step at h
  simp only [hp, Option.some.injEq, deliver] at h
  rcases Sink.writeUnit_cases c.sink (d.assemble ls.reverse c.slots).1 with
    ⟨t, hw, -⟩ | ⟨t, hw, -⟩ <;> simp only [hw] at h
  · cases h
    refine ⟨rfl, rfl, rfl, rfl, ?_⟩
    simp only [work, hp, Phase.rank]
    omega
  · exact progress_leave (by simp only [work, hp, Phase.rank]) (by simp [Phase.rank]) h

/-- A line costs its bytes, or the part of it that was read before the end. -/
theorem progress_gather {d : Descriptor} {missing : Nat} {ls : List Bytes}
    (hp : c.phase = .gathering d (missing + 1) ls) (hl : lf ∉ c.reader.line)
    (h : c.step q p = some (c', q', p')) : Progress c q p c' q' p' := by
  unfold step at h
  simp only [hp] at h
  rcases LineReader.readLine_cases hl p with ⟨l, r', bytes, hr, hl', -, hpre, hu⟩ |
    ⟨r', hr, hl', hne, hu, hu', -⟩ | ⟨r', bytes, hr, -, hlt, hu⟩ | ⟨hr, -⟩ | ⟨hr, -⟩ <;>
    simp only [hr] at h
  · cases h
    refine ⟨rfl, rfl, rfl, rfl, ?_⟩
    have hlen := congrArg List.length hu
    have hle := hpre.length_le
    simp only [LineReader.unread, hl', List.length_append, List.length_cons,
      List.length_nil] at hlen
    simp only [work, hp, Phase.rank, hl', List.length_append, List.length_nil]
    omega
  · cases h
    refine ⟨rfl, rfl, rfl, rfl, ?_⟩
    have hlen := congrArg List.length hu
    have hlen' := congrArg List.length hu'
    have hpos := List.length_pos_iff.mpr hne
    simp only [LineReader.unread, hl', List.length_append, List.length_nil] at hlen hlen'
    simp only [work, hp, Phase.rank, hl', List.length_append, List.length_nil]
    omega
  · cases h
    refine ⟨rfl, rfl, rfl, rfl, ?_⟩
    have hlen := congrArg List.length hu
    simp only [LineReader.unread, List.length_append] at hlen
    simp only [work, hp, Phase.rank, List.length_append]
    omega
  · exact progress_leave rfl (by simp [hp, Phase.rank]) (Option.some.inj h)
  · cases h

theorem progress_watch (hp : c.phase = .watching) (h : c.step q p = some (c', q', p')) :
    Progress c q p c' q' p' := by
  unfold step at h
  simp only [hp] at h
  cases h
  refine ⟨rfl, rfl, rfl, rfl, ?_⟩
  simp only [work, hp]
  split_ifs <;> simp only [Phase.rank] <;> omega

theorem fill_moved {r r' : LineReader} {more : Bool} (h : r.fill p = .known more r' p') :
    p' = { p with bytes := p'.bytes } ∧ r'.line = r.line ∧
      r'.buffer ++ p'.content = r.buffer ++ p.content := by
  rcases LineReader.fill_cases r p with ⟨buffer, bytes, e, -, hb⟩ | ⟨e, -⟩ | ⟨e, -⟩ <;>
    rw [e] at h <;> cases h
  · exact ⟨rfl, rfl, hb.symm⟩
  · exact ⟨rfl, rfl, rfl⟩

theorem progress_peek (hp : c.phase = .peeking) (h : c.step q p = some (c', q', p')) :
    Progress c q p c' q' p' := by
  unfold step at h
  simp only [hp, peek] at h
  cases hf : c.reader.fill p with
  | blocked => simp [hf] at h
  | known more r p₁ =>
    obtain ⟨hp₁, hline, hbytes⟩ := fill_moved hf
    simp only [hf] at h
    cases h
    refine ⟨rfl, rfl, by rw [hp₁], by rw [hp₁], ?_⟩
    simp only [work, hp, hline, hbytes]
    cases more <;> simp [Phase.rank]

theorem progress_confirm (hp : c.phase = .confirming) (h : c.step q p = some (c', q', p')) :
    Progress c q p c' q' p' := by
  unfold step at h
  simp only [hp] at h
  split_ifs at h
  · exact progress_leave rfl (by simp [hp, Phase.rank]) (Option.some.inj h)
  · cases h
    refine ⟨rfl, rfl, rfl, rfl, ?_⟩
    simp only [work, hp, Phase.rank]
    omega

theorem progress_close (hp : c.phase = .closing) (h : c.step q p = some (c', q', p')) :
    Progress c q p c' q' p' := by
  unfold step at h
  simp only [hp, peek] at h
  cases hf : c.reader.fill p with
  | blocked => simp [hf] at h
  | known more r p₁ =>
    obtain ⟨hp₁, hline, hbytes⟩ := fill_moved hf
    have hwork (sink : Sink) : { c with reader := r, sink }.work q p₁ = c.work q p := by
      simp only [work, hline, hbytes]
    have hrank : 0 < c.phase.rank := by simp [hp, Phase.rank]
    simp only [hf, Option.some.injEq] at h
    rw [hp₁] at h hwork
    split_ifs at h
    · exact progress_leave (hwork c.sink) hrank h
    · split at h
      · exact progress_leave (hwork _) hrank h
      · exact progress_leave (hwork _) hrank h

/-- **Every step of a collector makes progress** and touches only its own ends. -/
theorem step_progress (h : c.step q p = some (c', q', p')) (hl : lf ∉ c.reader.line) :
    Progress c q p c' q' p' := by
  cases hp : c.phase with
  | consuming => exact progress_consume hp h
  | gathering d missing ls =>
    cases missing with
    | zero => exact progress_deliver hp h
    | succ missing => exact progress_gather hp hl h
  | watching => exact progress_watch hp h
  | peeking => exact progress_peek hp h
  | confirming => exact progress_confirm hp h
  | closing => exact progress_close hp h
  | returned result =>
    unfold step at h
    simp only [hp] at h
    cases h

end Coprocess.Collector
