import Coprocess.Proofs.Pipeline.Deadlock
import Coprocess.Proofs.Pipeline.Effort
import Coprocess.Proofs.Pipeline.Unfailed
import Coprocess.Proofs.Source.Recall

/-!
# A cache before a child that answers

Whatever a child remembers of the lines it was sent, a cache sends it the first line with each key
and passes on its answer for all lines with this key.

* `Pipeline.Answers`: a child that gives each line the answer that belongs to it;
* `Pipeline.Tracks`: the source of a feeder, as far as it was read;
* **`Pipeline.cache_recalls`**: what is sent and written, in every order of steps.
-/

namespace Coprocess

namespace Feeder

variable {f f' : Feeder} {q q' : Queue Descriptor} {p p' : Pipe}

theorem step_source (h : f.step q p = some (f', q', p')) :
    f'.source = f.source ∨ ∃ r, f.source.next = some (r, f'.source) := by
  cases move_of_step h with
  | fetch _ _ hn | refuse _ _ hn => exact .inr ⟨_, hn⟩
  | _ => exact .inl rfl

theorem Inv.source_ended {s₀ : Source} {published : List Parcel}
    {log : List (Message Descriptor)} {sent : Bytes} {n : Nat}
    (h : f.Inv s₀ published log sent q p) (hr : f.result? = some (.ok n)) :
    f.source.next = none := by
  have hp := phase_of_result? hr
  unfold Inv at h
  simp only [hp] at h
  exact h.2.2.2.1

end Feeder

namespace Pipeline

variable {σ : Type}

/-- A child that gives each line its answer. However its input goes on, what it has written is a
beginning of its answers. It leaves its input at the end, and its output when it has given all
answers. When it cannot go on it waits for input or for room in its output. -/
structure Answers (answer : List Bytes → Bytes → Bytes) (act : σ → Act σ) (p : Pipeline σ)
    (t : Transcript) : Prop where
  begun : ∀ more, t.answered <+: (replies answer [] (lines (t.taken ++ more))).flatMap (· ++ [lf])
  reading : p.input.readable = false → t.atEnd = true
  closing : p.output.writable = false →
    t.atEnd = true ∧ lines t.answered = replies answer [] (lines t.taken)
  waiting : Waits act p True

section

variable {act : σ → Act σ} {answer : List Bytes → Bytes → Bytes} {key : CacheKey} {input : Bytes}
  {flow : Flow} {child : Child σ} {sink₀ : Sink} {inputCapacity outputCapacity : Nat}
  {published : List Parcel} {taken : List Descriptor} {log : List (Message Descriptor)}
  {before : Bytes} {p : Pipeline σ} {t : Transcript}
  {Allowed : Pipeline σ → Transcript → Prop}

theorem Answers.heeds (hanswer : ∀ before line, lf ∉ line → lf ∉ answer before line)
    (h : Answers answer act p t) : Heeds p t where
  answers := by
    obtain ⟨rest, hrest⟩ := h.begun []
    have hle := length_lines_le t.answered rest
    have hlines : ∀ reply ∈ replies answer [] (lines t.taken), lf ∉ reply := fun _ hr =>
      not_mem_replies hanswer (fun _ hl => not_mem_of_mem_lines hl) hr
    rw [hrest, List.append_nil, lines_flatMap hlines, length_replies] at hle
    exact hle
  closing hw := by
    obtain ⟨hend, hall⟩ := h.closing hw
    refine ⟨hend, ?_⟩
    rw [hall, length_replies]
    exact countLf_le_length_lines t.taken
  reading := h.reading

/-! ## The source of the feeder -/

/-- A feeder's source is a cache, and will have seen the same keys at its end. -/
def Tracks (key : CacheKey) (source : Source) (p : Pipeline σ) : Prop :=
  p.feeder.source.kind = .cache key ∧ p.feeder.source.lastKeys key = source.lastKeys key

theorem reaches_tracks (hr : Reaches act Allowed (start { kind := .cache key, input } flow child
      sink₀ { capacity := inputCapacity } { capacity := outputCapacity }) p t) :
    Tracks key { kind := .cache key, input } p := by
  induction hr with
  | start => exact ⟨rfl, rfl⟩
  | step _ now actor hs _ ih =>
    cases actor with
    | feeder =>
      obtain ⟨⟨f, q, i⟩, hstep, rfl⟩ := Option.map_eq_some_iff.mp hs
      obtain ⟨hkind, hkeys⟩ := ih
      rcases Feeder.step_source hstep with he | ⟨r, hn⟩
      · exact ⟨he ▸ hkind, he ▸ hkeys⟩
      · obtain ⟨-, -, -, -, hk⟩ := Source.next_eq_some hn
        exact ⟨hk.trans hkind, (Source.lastKeys_next hkind hn).trans hkeys⟩
    | child =>
      obtain ⟨⟨c, i, o⟩, -, rfl⟩ := Option.map_eq_some_iff.mp hs
      exact ih
    | collector =>
      obtain ⟨⟨c, q, o⟩, -, rfl⟩ := Option.map_eq_some_iff.mp hs
      exact ih

theorem Tracks.misses (h : Tracks key { kind := .cache key, input } p)
    (hn : p.feeder.source.next = none) :
    p.feeder.source.misses? = some ((lines input).map key.of).toFinset.card := by
  obtain ⟨hkind, hkeys⟩ := h
  have hend : p.feeder.source.lastKeys key = p.feeder.source.keys := by
    rw [Source.lastKeys, Source.input_of_none hn, lines_nil, unseen_nil]
    simp
  have hall : Source.lastKeys key { kind := .cache key, input } =
      (firsts key (lines input)).map key.of := by
    simp [Source.lastKeys, unseen_start]
  rw [Source.misses?, hkind]
  simp only
  rw [← hend, hkeys, hall, List.length_map, length_firsts]

/-! ## What is sent and answered -/

theorem lines_sent (key : CacheKey) (input : Bytes) :
    payloads (Source.parcels { kind := .cache key, input }) =
        (firsts key (lines input)).flatMap (· ++ [lf]) ∧
      lines ((firsts key (lines input)).flatMap (· ++ [lf])) = firsts key (lines input) := by
  constructor
  · rw [Source.payloads_cache rfl, unseen_start]
  · refine lines_flatMap fun l hl => ?_
    rw [← unseen_start] at hl
    exact not_mem_of_mem_lines (mem_of_mem_unseen hl)

theorem Answers.length_le (h : Answers answer act p t)
    (hinv : p.Inv { kind := .cache key, input } sink₀ published taken log before t) :
    t.answered.length ≤
      ((replies answer [] (firsts key (lines input))).flatMap (· ++ [lf])).length := by
  obtain ⟨hsent, hlines⟩ := lines_sent key input
  obtain ⟨⟨rest, hparcels⟩, hannounced, -⟩ := hinv.feeder.announced
  -- What the child has read is a beginning of all that is sent.
  obtain ⟨more, hmore⟩ : t.taken <+: (firsts key (lines input)).flatMap (· ++ [lf]) := by
    rw [← hsent, ← hparcels, payloads_append]
    exact (List.prefix_append _ _).trans (hannounced.trans (List.prefix_append _ _))
  have hbegun := h.begun more
  rw [hmore, hlines] at hbegun
  exact hbegun.length_le

theorem recalled_units (key : CacheKey) (answer : List Bytes → Bytes → Bytes) (input : Bytes) :
    ∃ units, List.Forall₂ (Recalls key answer (firsts key (lines input))) (lines input) units ∧
      ((Descriptor.assembleAll (descriptors (Source.parcels { kind := .cache key, input }))
        (replies answer [] (firsts key (lines input))) {}).1.map (Sink.render .line)).flatten =
          units.flatMap (· ++ [lf]) := by
  have hslots (i : Nat) : Slots.get? {} i = (replies answer [] [])[i]? := by cases i <;> rfl
  have h := Source.recalls_cache (s := { kind := .cache key, input }) rfl List.map_nil.symm hslots
  simp only [List.nil_append, unseen_start] at h
  exact ⟨_, h, (List.flatMap_def ..).symm⟩

end

/-- **Caching.** A child gives each line an answer, which may depend on all lines before. A cache
sends it the first line with each key, and for every line of the input the answer to the first line
with its key is written. The feeder and the collector come to an end, unless the queue is bounded
and they get stuck while the child withholds an answer, or on as many repeats in a row as the queue
holds. -/
theorem cache_recalls (key : CacheKey) (answer : List Bytes → Bytes → Bytes) (input : Bytes)
    (flow : Flow) (act : σ → Act σ) (child : Child σ) {inputCapacity outputCapacity : Nat}
    (hanswer : ∀ before line, lf ∉ line → lf ∉ answer before line) (hi : 0 < inputCapacity)
    (ho : 0 < outputCapacity) :
    let source : Source := { kind := .cache key, input }
    let s := start source flow child {} { capacity := inputCapacity } { capacity := outputCapacity }
    let sent := firsts key (lines input)
    let most := ((replies answer [] sent).flatMap (· ++ [lf])).length
    ∀ p t, Reaches act (Answers answer act) s p t →
      (∀ now actor p', p.stepOf act now actor = some p' →
        Answers answer act p' (record act t p p' actor) →
        effort most p' (record act t p p' actor) ≤ effort most p t ∧
          (actor ≠ .child → effort most p' (record act t p p' actor) < effort most p t)) ∧
      (Stuck act p → ∃ n, flow.capacity = some n ∧
        (countLf t.answered ≠ countLf t.taken ∨ RepeatsInARow source.parcels (max 1 n))) ∧
      (∀ r, p.feeder.result? = some r →
        r = .ok (lines input).length ∧
          t.taken ++ p.input.content = sent.flatMap (· ++ [lf]) ∧
          p.feeder.source.misses? = some ((lines input).map key.of).toFinset.card) ∧
      ∀ r, p.collector.result? = some r →
        r = .ok (lines input).length ∧ t.taken = sent.flatMap (· ++ [lf]) ∧
          (∃ units, List.Forall₂ (Recalls key answer sent) (lines input) units ∧
            p.collector.sink.outlet.written = units.flatMap (· ++ [lf])) ∧
          (key.selection = none → ∀ f : Bytes → Bytes,
            (∀ before line, answer before line = f line) →
            p.collector.sink.outlet.written =
              (lines input).flatMap fun line => f line ++ [lf]) := by
  intro source s sent most p t hr
  have hbegin := inv_begin source flow child {} inputCapacity outputCapacity
  obtain ⟨published, taken, log, before, hinv⟩ := reaches_inv hr hbegin
  have hfault : source.fault? = none := Source.fault?_cache rfl
  have hcalm := reaches_calm hfault rfl rfl (fun p t => Answers.heeds hanswer) hr
  have hcount : source.parcels.length = (lines input).length := Source.length_parcels hfault
  obtain ⟨hsent, hlines⟩ := lines_sent key input
  have hheeds := hr.allowed.heeds hanswer
  refine ⟨fun now actor p' hs ha => ?_, fun hstuck => ?_, fun r hf => ?_, fun r hc => ?_⟩
  · obtain ⟨_, _, _, _, hinv'⟩ := step_inv hs hinv
    exact step_effort hs hinv (ha.length_le hinv')
  · exact cause_of_stuck hi ho hr hheeds.toFollows hr.allowed.waiting hstuck
  · obtain ⟨rfl, -, hall⟩ := hcalm.fed hinv hf
    refine ⟨by rw [hcount], hall.trans hsent, ?_⟩
    exact (reaches_tracks hr).misses (hinv.feeder.source_ended hf)
  · obtain ⟨rfl, hclosed, htaken, hwritten⟩ := hcalm.collected hinv hheeds.toFollows hc
    rw [hsent] at htaken
    have hanswered : lines t.answered = replies answer [] sent := by
      rw [(hr.allowed.closing hclosed).2, htaken, hlines]
    obtain ⟨units, hunits, hrendered⟩ := recalled_units key answer input
    have hunited : p.collector.sink.outlet.written = units.flatMap (· ++ [lf]) := by
      rw [hwritten, hanswered, hrendered]
      rfl
    refine ⟨by rw [hcount], htaken, ⟨units, hunits, hunited⟩, fun hwhole f hf => ?_⟩
    rw [hunited, units_of_whole hunits hwhole hf, List.flatMap_map]

/-! ## A child that copies -/

/-- What a child that copies has done so far. -/
def Copies (p : Pipeline (Option Bytes)) (t : Transcript) : Prop :=
  t.answered <+: t.taken ∧ (p.input.readable = false → t.atEnd = true) ∧
    (p.output.writable = false → t.atEnd = true ∧ t.answered = t.taken) ∧
    ((p.stepOf copy 0 .child).isSome = true ∨ (p.output.readable = true ∧ p.output.room = 0) ∨
      (p.input.content = [] ∧ p.input.writable = true) ∨ p.output.writable = false)

instance (p : Pipeline (Option Bytes)) (t : Transcript) : Decidable (Copies p t) :=
  inferInstanceAs (Decidable (_ ∧ _))

theorem replies_line (before ls : List Bytes) : replies (fun _ line => line) before ls = ls := by
  induction ls generalizing before with
  | nil => rfl
  | cons line ls ih => rw [replies, ih]

theorem Copies.answers {p : Pipeline (Option Bytes)} {t : Transcript} (h : Copies p t) :
    Answers (fun _ line => line) copy p t := by
  obtain ⟨hpre, hreading, hclosing, hgoing⟩ := h
  refine ⟨fun more => ?_, hreading, fun hw => ?_, fun hwait => ?_⟩
  · rw [replies_line, flatMap_lines]
    have hmore : t.answered <+: t.taken ++ more := hpre.trans (List.prefix_append _ _)
    split_ifs
    · exact hmore
    · exact hmore.trans (List.prefix_append _ _)
  · obtain ⟨hend, hall⟩ := hclosing hw
    exact ⟨hend, by rw [replies_line, hall]⟩
  · rcases hgoing with hs | hfull | hread | hw
    · rw [hwait 0] at hs
      cases hs
    · exact .inl hfull
    · exact .inr (.inl ⟨hread.1, hread.2, trivial⟩)
    · exact .inr (.inr hw)

/-- Lines with their first field as key, the third a repeat of the first with another rest, and
pipes that cut each line. -/
theorem cache_recalls_field :
    let key : CacheKey := { selection := some ⟨[⟨0, some 1⟩]⟩ }
    let input : Bytes := [49, 9, 120, lf, 50, 9, 120, lf, 49, 9, 121]
    let sent : List Bytes := [[49, 9, 120], [50, 9, 120]]
    ∃ p t, ((0 < 3 ∧ 0 < 2) ∧ Reaches copy (Answers (fun _ line => line) copy)
        (start { kind := .cache key, input } { flushEvery := 1 } copier {} { capacity := 3 }
          { capacity := 2 }) p t ∧
      p.feeder.result? = some (.ok 3) ∧ p.collector.result? = some (.ok 3)) ∧
      p.feeder.source.misses? = some 2 ∧ t.taken = sent.flatMap (· ++ [lf]) ∧
      ∃ units, List.Forall₂ (Recalls key (fun _ line => line) sent) (lines input) units ∧
        p.collector.sink.outlet.written = units.flatMap (· ++ [lf]) := by
  intro key input sent
  let s := start { kind := .cache key, input } { flushEvery := 1 } copier {} { capacity := 3 }
    { capacity := 2 }
  have hrun : (drive copy (fun p t => decide (Copies p t)) [.child, .collector, .feeder] 58 s
      {}).map (fun pt => (pt.1.feeder.result?.bind Except.toOption,
        pt.1.collector.result?.bind Except.toOption)) = some (some 3, some 3) := by
    decide +kernel
  obtain ⟨⟨p, t⟩, hd, he⟩ := Option.map_eq_some_iff.mp hrun
  obtain ⟨hf, hc⟩ := Prod.mk.inj he
  have hf := eq_ok_of_toOption hf
  have hc := eq_ok_of_toOption hc
  have hr := reaches_drive (fun _ _ h => (of_decide_eq_true h : Copies _ _).answers)
    (.start (Copies.answers (by decide +kernel))) hd
  have hlines : lines input = [[49, 9, 120], [50, 9, 120], [49, 9, 121]] := by
    have hinput : input = [49, 9, 120] ++ lf :: ([50, 9, 120] ++ lf :: [49, 9, 121]) := rfl
    rw [hinput, lines_line (by decide), lines_line (by decide), lines_rest (by decide) (by decide)]
  have hsent : firsts key (lines input) = sent := by
    rw [hlines]
    decide +kernel
  obtain ⟨-, -, hfed, hcollected⟩ := cache_recalls key (fun _ line => line) input
    { flushEvery := 1 } copy copier (fun _ _ hline => hline) (by decide : 0 < 3)
    (by decide : 0 < 2) p t hr
  rw [hsent] at hfed hcollected
  obtain ⟨-, -, hmisses⟩ := hfed _ hf
  obtain ⟨-, htaken, hunits, -⟩ := hcollected _ hc
  have hkeys : ((lines input).map key.of).toFinset.card = 2 := by
    rw [hlines]
    decide +kernel
  exact ⟨p, t, ⟨⟨by decide, by decide⟩, hr, hf, hc⟩, hmisses.trans (congrArg some hkeys), htaken,
    hunits⟩

end Pipeline

end Coprocess
