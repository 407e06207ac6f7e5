import Coprocess.Pipeline.Collector
import Coprocess.Proofs.Collector.Assembly
import Coprocess.Proofs.Pipe.Transfer

/-!
# What a collector reads and writes

The lines of a child go to the units in order, each unit takes the next that it asks for, and a unit
is written when it is complete.

* `Collector.Stream`: the bytes that came from the child, read and unread;
* `Collector.Built`, `Collector.Partial`: units that are complete, and one that is not;
* `Collector.Verdict`: what a result says about the child and the queue;
* `Collector.Inv`: what holds in each phase;
* **`Collector.step_inv`**: the invariant holds after every step.
-/

namespace Coprocess

/-! ## Messages -/

section

variable {α : Type} {taken units : List α} {tail : List (Message α)}

theorem prefix_of_items (h : taken.map .item <+: units.map .item ++ tail)
    (ht : ∀ m ∈ tail, m = .finished) : taken <+: units := by
  induction taken generalizing units with
  | nil => exact List.nil_prefix
  | cons d taken ih =>
    cases units with
    | nil =>
      have := ht (.item d) (h.subset (by simp))
      cases this
    | cons u units =>
      rw [List.map_cons, List.map_cons, List.cons_append, List.cons_prefix_cons] at h
      obtain ⟨e, h⟩ := h
      cases e
      exact List.cons_prefix_cons.mpr ⟨rfl, ih h⟩

theorem eq_of_finished (h : taken.map .item ++ [.finished] <+: units.map .item ++ tail)
    (ht : ∀ m ∈ tail, m = .finished) : taken = units ∧ tail ≠ [] := by
  obtain ⟨rest, rfl⟩ := prefix_of_items ((List.prefix_append _ _).trans h) ht
  rw [List.map_append, List.append_assoc, List.prefix_append_right_inj] at h
  cases rest with
  | nil =>
    refine ⟨(List.append_nil taken).symm, ?_⟩
    rintro rfl
    exact absurd (List.prefix_nil.mp h) (by simp)
  | cons u rest =>
    obtain ⟨more, e⟩ := h
    cases e

theorem eq_of_items (h : units.map .item ++ tail = taken.map .item)
    (ht : ∀ m ∈ tail, m = .finished) : taken = units ∧ tail = [] := by
  obtain ⟨rest, rfl⟩ := prefix_of_items ⟨[], by rw [List.append_nil, h]⟩ ht
  rw [List.map_append, List.append_assoc, List.append_right_eq_self, List.append_eq_nil_iff] at h
  exact ⟨by rw [List.map_eq_nil_iff.mp h.1, List.append_nil], h.2⟩

end

end Coprocess

namespace Coprocess.Collector

/-! ## The invariant -/

/-- The output of the child has ended and is read. -/
def AtEnd (r : LineReader) (p : Pipe) : Prop := p.writable = false ∧ r.unread p = []

/-- Of the bytes that have arrived, those in `before` are read; they are whole lines, but for a last
line without line feed. -/
structure Stream (arrived before : Bytes) (r : LineReader) (p : Pipe) : Prop where
  bytes : arrived = before ++ r.unread p
  line : lf ∉ r.line
  whole : Terminated before ∨ AtEnd r p

/-- The units of `taken` are made of the lines `got`, and use them up. -/
structure Built (slots₀ : Slots) (taken : List Descriptor) (got : List Bytes) (slots : Slots) :
    Prop where
  lines : (Descriptor.demands taken slots₀).sum = got.length
  slots : slots = (Descriptor.assembleAll taken got slots₀).2

/-- The units that `taken` makes of the lines `got`. -/
def built (slots₀ : Slots) (taken : List Descriptor) (got : List Bytes) : List Bytes :=
  (Descriptor.assembleAll taken got slots₀).1

/-- The last unit of `taken` has some of its lines and misses others; the units before it are
written. -/
def Partial (sink₀ : Sink) (slots₀ : Slots) (taken : List Descriptor) (got : List Bytes)
    (d : Descriptor) (missing : Nat) (ls : List Bytes) (slots : Slots) (sink : Sink) : Prop :=
  ∃ done old, taken = done ++ [d] ∧ got = old ++ ls.reverse ∧ Built slots₀ done old slots ∧
    sink₀.Holds (built slots₀ done old) sink ∧ ls.length + missing = d.expected slots

/-- What is known when a collector has returned. -/
def Verdict (sink₀ : Sink) (slots₀ : Slots) (taken : List Descriptor)
    (log : List (Message Descriptor)) (got : List Bytes) (p : Pipe) (c : Collector) :
    Except Failure Nat → Prop
  | .ok n =>
    Built slots₀ taken got c.slots ∧
      (∃ s, sink₀.Holds (built slots₀ taken got) s ∧ c.sink = s.finish.2) ∧
      n = taken.length ∧ AtEnd c.reader p ∧ taken.map .item ++ [.finished] <+: log
  | .error (.underProduction k) =>
    (∃ d missing ls, Partial sink₀ slots₀ taken got d (missing + 1) ls c.slots c.sink) ∧
      k = taken.length ∧ AtEnd c.reader p ∧ taken.map .item <+: log
  | .error (.overProduction k) =>
    Built slots₀ taken got c.slots ∧ sink₀.Holds (built slots₀ taken got) c.sink ∧
      k = taken.length + 1 ∧ c.reader.unread p ≠ [] ∧
      (log = taken.map .item ∧ taken ≠ [] ∨ taken.map .item ++ [.finished] <+: log)
  | .error .queueClosed =>
    Built slots₀ taken got c.slots ∧ sink₀.Holds (built slots₀ taken got) c.sink ∧
      log = taken.map .item ∧ (taken = [] ∨ AtEnd c.reader p)
  | .error e =>
    e = .io (.os .pipe) ∧ (sink₀.outlet.limit.isSome = true ∨ sink₀.outlet.flushFails = true) ∧
      taken.map .item <+: log

/-- What holds of the units and the queue in each phase: `taken` are the descriptors that were taken
from the queue's `log`, and `got` are the lines that were read. -/
def Stage (sink₀ : Sink) (slots₀ : Slots) (taken : List Descriptor)
    (log : List (Message Descriptor)) (got : List Bytes) (q : Queue Descriptor) (p : Pipe)
    (c : Collector) : Prop :=
  let Ready := Built slots₀ taken got c.slots ∧ sink₀.Holds (built slots₀ taken got) c.sink ∧
    c.reader.line = []
  match c.phase with
  | .consuming =>
    Ready ∧ log = taken.map .item ++ q.waiting.toList ∧
      (taken = [] ∨ q.waiting.toList ≠ [] ∨ AtEnd c.reader p)
  | .gathering d missing ls =>
    Partial sink₀ slots₀ taken got d missing ls c.slots c.sink ∧
      log = taken.map .item ++ q.waiting.toList ∧ (missing = 0 → c.reader.line = [])
  | .watching | .peeking =>
    Ready ∧ log = taken.map .item ++ q.waiting.toList ∧ taken ≠ []
  | .confirming =>
    Ready ∧ log = taken.map .item ++ q.waiting.toList ∧ taken ≠ [] ∧ c.reader.unread p ≠ []
  | .closing => Ready ∧ log = taken.map .item ++ .finished :: q.waiting.toList
  | .returned result => Verdict sink₀ slots₀ taken log got p c result

/-- What holds of a collector that started with the given sink and slots. -/
structure Inv (sink₀ : Sink) (slots₀ : Slots) (taken : List Descriptor)
    (log : List (Message Descriptor)) (before arrived : Bytes) (q : Queue Descriptor) (p : Pipe)
    (c : Collector) : Prop where
  stream : Stream arrived before c.reader p
  unit : c.unit = taken.length
  stage : c.Stage sink₀ slots₀ taken log (lines before) q p
  consuming : q.consuming = c.result?.isNone
  readable : p.readable = c.result?.isNone

section

variable {sink₀ sink : Sink} {slots₀ slots : Slots} {taken : List Descriptor}
  {log : List (Message Descriptor)} {got : List Bytes} {before arrived : Bytes}
  {q q' : Queue Descriptor} {p p' : Pipe} {c c' : Collector} {d : Descriptor}

/-! ## Units -/

theorem built_nil (slots : Slots) : Built slots [] [] slots := ⟨rfl, rfl⟩

theorem Partial.start (hb : Built slots₀ taken got slots)
    (hs : sink₀.Holds (built slots₀ taken got) sink) (d : Descriptor) :
    Partial sink₀ slots₀ (taken ++ [d]) got d (d.expected slots) [] slots sink :=
  ⟨taken, got, rfl, by simp, hb, hs, by simp⟩

theorem Partial.line {missing : Nat} {ls : List Bytes}
    (h : Partial sink₀ slots₀ taken got d (missing + 1) ls slots sink) (l : Bytes) :
    Partial sink₀ slots₀ taken (got ++ [l]) d missing (l :: ls) slots sink := by
  obtain ⟨done, old, ht, hg, hb, hs, hl⟩ := h
  refine ⟨done, old, ht, ?_, hb, hs, ?_⟩
  · rw [hg]
    simp
  · rw [List.length_cons]
    omega

theorem Partial.deliver {ls : List Bytes}
    (h : Partial sink₀ slots₀ taken got d 0 ls slots sink) :
    Built slots₀ taken got (d.assemble ls.reverse slots).2 ∧
      ∃ units, sink₀.Holds units sink ∧
        built slots₀ taken got = units ++ [(d.assemble ls.reverse slots).1] := by
  obtain ⟨done, old, rfl, rfl, hb, hs, hl⟩ := h
  have he : ls.reverse.length = d.expected (Descriptor.assembleAll done old slots₀).2 := by
    rw [← hb.slots, List.length_reverse]
    omega
  have ha := Descriptor.assembleAll_concat hb.lines d he
  rw [hb.slots]
  refine ⟨⟨?_, ?_⟩, built slots₀ done old, hs, ?_⟩
  · rw [Descriptor.sum_demands_concat done old, hb.lines, List.length_append, he]
  · rw [ha]
  · rw [built, ha]
    rfl

theorem Partial.lt {missing : Nat} {ls : List Bytes}
    (h : Partial sink₀ slots₀ taken got d (missing + 1) ls slots sink) :
    got.length < (Descriptor.demands taken slots₀).sum := by
  obtain ⟨done, old, rfl, rfl, hb, -, hl⟩ := h
  rw [Descriptor.sum_demands_concat done old, hb.lines, ← hb.slots, List.length_append,
    List.length_reverse]
  omega

/-! ## The stream -/

theorem Stream.terminated {r : LineReader} (h : Stream arrived before r p)
    (hu : r.unread p ≠ []) : Terminated before := by
  rcases h.whole with ht | ⟨-, he⟩
  · exact ht
  · exact absurd he hu

theorem Stream.line_read {r r' : LineReader} {l : Bytes} {bytes : Array UInt8}
    (h : Stream arrived before r p) (hl : lf ∉ l) (hr : r'.line = [])
    (hu : r.unread p = l ++ lf :: r'.unread { p with bytes }) :
    Stream arrived (before ++ (l ++ [lf])) r' { p with bytes } ∧
      lines (before ++ (l ++ [lf])) = lines before ++ [l] := by
  have ht : Terminated before := h.terminated (by rw [hu]; simp)
  refine ⟨⟨?_, by simp [hr], .inl (ht.append (terminated_concat l))⟩, ?_⟩
  · rw [h.bytes, hu]
    simp
  · rw [lines_append ht, lines_line hl, lines_nil]

theorem Stream.rest_read {r r' : LineReader} (h : Stream arrived before r p) (hne : r.line ≠ [])
    (hr : r'.line = []) (hu : r.unread p = r.line) (hu' : r'.unread p = [])
    (hw : p.writable = false) :
    Stream arrived (before ++ r.line) r' p ∧
      lines (before ++ r.line) = lines before ++ [r.line] := by
  have ht : Terminated before := h.terminated (by rw [hu]; exact hne)
  refine ⟨⟨?_, by simp [hr], .inr ⟨hw, hu'⟩⟩, ?_⟩
  · rw [h.bytes, hu, hu', List.append_nil]
  · rw [lines_append ht, lines_rest h.line hne]

theorem Stream.moved {r r' : LineReader} {bytes : Array UInt8} (h : Stream arrived before r p)
    (hl : lf ∉ r'.line) (hu : r.unread p = r'.unread { p with bytes }) :
    Stream arrived before r' { p with bytes } := by
  refine ⟨by rw [h.bytes, hu], hl, ?_⟩
  rcases h.whole with ht | ⟨hw, he⟩
  · exact .inl ht
  · exact .inr ⟨hw, hu ▸ he⟩

theorem Stream.leave {r : LineReader} (h : Stream arrived before r p) :
    Stream arrived before r p.closeReader := ⟨h.bytes, h.line, h.whole⟩

/-! ## Steps -/

/-- A step after which the invariant holds for some descriptors taken and some bytes read. -/
def Keeps (sink₀ : Sink) (slots₀ : Slots) (log : List (Message Descriptor)) (arrived : Bytes)
    (q : Queue Descriptor) (p : Pipe) (c : Collector) : Prop :=
  ∃ taken before, c.Inv sink₀ slots₀ taken log before arrived q p

theorem inv_leave {result : Except Failure Nat} (hs : Stream arrived before c.reader p)
    (hu : c.unit = taken.length)
    (h : Verdict sink₀ slots₀ taken log (lines before) p c result) :
    Keeps sink₀ slots₀ log arrived (c.leave result q p).2.1 (c.leave result q p).2.2
      (c.leave result q p).1 := by
  refine ⟨taken, before, hs.leave, hu, ?_, rfl, rfl⟩
  cases result with
  | ok n => exact h
  | error e =>
    cases e <;> exact h

theorem inv_go (hs : Stream arrived before c.reader p) (hu : c.unit = taken.length)
    (h : c.Stage sink₀ slots₀ taken log (lines before) q p) (hn : c.result? = none)
    (ho : q.consuming = true ∧ p.readable = true) : Keeps sink₀ slots₀ log arrived q p c := by
  refine ⟨taken, before, hs, hu, h, ?_, ?_⟩
  · rw [ho.1, hn]
    rfl
  · rw [ho.2, hn]
    rfl

theorem Inv.open (hinv : c.Inv sink₀ slots₀ taken log before arrived q p)
    (hn : c.result? = none) : q.consuming = true ∧ p.readable = true := by
  rw [hinv.consuming, hinv.readable, hn]
  exact ⟨rfl, rfl⟩

theorem going_of_step {r : Collector × Queue Descriptor × Pipe} (h : c.step q p = some r) :
    c.result? = none := by
  unfold step at h
  unfold result?
  cases hp : c.phase with
  | returned result =>
    simp only [hp] at h
    cases h
  | consuming | gathering | watching | peeking | confirming | closing => rfl

theorem inv_consume (hinv : c.Inv sink₀ slots₀ taken log before arrived q p)
    (hp : c.phase = .consuming) (h : c.step q p = some (c', q', p')) :
    Keeps sink₀ slots₀ log arrived q' p' c' := by
  have ho := hinv.open (by simp [result?, hp])
  obtain ⟨hs, hu, hst, -, -⟩ := hinv
  unfold Stage at hst
  simp only [hp] at hst
  obtain ⟨⟨hb, hk, hl⟩, hlog, hw⟩ := hst
  unfold step at h
  simp only [hp] at h
  rcases Queue.receive_cases q with ⟨m, waiting, e, hq⟩ | ⟨-, -, hq⟩ | ⟨e, -, hq⟩ <;> rw [hq] at h
  · cases m with
    | item d =>
      cases h
      have hu' : c.unit + 1 = (taken ++ [d]).length := by simp [hu]
      refine inv_go hs hu' ?_ rfl ho
      refine ⟨Partial.start hb hk d, ?_, fun _ => hl⟩
      rw [hlog, e]
      simp
    | finished =>
      cases h
      refine inv_go hs hu ⟨⟨hb, hk, hl⟩, ?_⟩ rfl ho
      rw [hlog, e]
  · cases h
  · cases h
    refine inv_leave hs hu ⟨hb, hk, ?_, ?_⟩
    · rw [hlog, e, List.append_nil]
    · rcases hw with hw | hw | hw
      · exact .inl hw
      · exact absurd e hw
      · exact .inr hw

theorem inv_deliver {ls : List Bytes} (hinv : c.Inv sink₀ slots₀ taken log before arrived q p)
    (hp : c.phase = .gathering d 0 ls) (h : c.step q p = some (c', q', p')) :
    Keeps sink₀ slots₀ log arrived q' p' c' := by
  have ho := hinv.open (by simp [result?, hp])
  obtain ⟨hs, hu, hst, -, -⟩ := hinv
  unfold Stage at hst
  simp only [hp] at hst
  obtain ⟨hpart, hlog, hl⟩ := hst
  obtain ⟨hb, units, hk, he⟩ := hpart.deliver
  unfold step at h
  simp only [hp, deliver] at h
  rcases Sink.writeUnit_cases c.sink (d.assemble ls.reverse c.slots).1 with
    ⟨t, hw, ht⟩ | ⟨t, hw, hlim⟩ <;> simp only [hw, Option.some.injEq] at h
  · cases h
    refine inv_go hs hu ⟨⟨hb, ?_, hl trivial⟩, hlog, ?_⟩ rfl ho
    · rw [he]
      exact hk.append ht
    · obtain ⟨done, old, rfl, -⟩ := hpart
      simp
  · cases h
    refine inv_leave (c := { c with slots := (d.assemble ls.reverse c.slots).2, sink := t })
      (q := q) (p := p) hs hu ⟨rfl, .inl ?_, ?_⟩
    · rw [← hk.outlet.1]
      exact hlim
    · rw [hlog]
      exact List.prefix_append _ _

theorem inv_gather {missing : Nat} {ls : List Bytes}
    (hinv : c.Inv sink₀ slots₀ taken log before arrived q p)
    (hp : c.phase = .gathering d (missing + 1) ls) (h : c.step q p = some (c', q', p')) :
    Keeps sink₀ slots₀ log arrived q' p' c' := by
  have ho := hinv.open (by simp [result?, hp])
  obtain ⟨hs, hu, hst, -, -⟩ := hinv
  unfold Stage at hst
  simp only [hp] at hst
  obtain ⟨hpart, hlog, -⟩ := hst
  unfold step at h
  simp only [hp] at h
  rcases LineReader.readLine_cases hs.line p with
      ⟨l, r', bytes, hr, hl, hm, -, hunread⟩ |
      ⟨r', hr, hl, hne, hunread, hunread', hw⟩ | ⟨r', bytes, hr, hm, -, hunread⟩ |
      ⟨hr, hunread, hw⟩ | ⟨hr, -⟩ <;> rw [hr] at h
  · cases h
    obtain ⟨hs', hlines⟩ := hs.line_read hm hl hunread
    refine inv_go hs' hu ?_ rfl ho
    refine ⟨?_, hlog, fun _ => hl⟩
    rw [hlines]
    exact hpart.line l
  · cases h
    obtain ⟨hs', hlines⟩ := hs.rest_read hne hl hunread hunread' hw
    refine inv_go hs' hu ?_ rfl ho
    refine ⟨?_, hlog, fun _ => hl⟩
    rw [hlines]
    exact hpart.line c.reader.line
  · cases h
    refine inv_go (hs.moved hm hunread) hu ?_ rfl ho
    exact ⟨hpart, hlog, fun e => by cases e⟩
  · cases h
    refine inv_leave hs hu ⟨⟨d, missing, ls, hpart⟩, hu, ⟨hw, hunread⟩, ?_⟩
    rw [hlog]
    exact List.prefix_append _ _
  · cases h

theorem inv_watch (hinv : c.Inv sink₀ slots₀ taken log before arrived q p)
    (hp : c.phase = .watching) (h : c.step q p = some (c', q', p')) :
    Keeps sink₀ slots₀ log arrived q' p' c' := by
  have ho := hinv.open (by simp [result?, hp])
  obtain ⟨hs, hu, hst, -, -⟩ := hinv
  unfold Stage at hst
  simp only [hp] at hst
  obtain ⟨hready, hlog, ht⟩ := hst
  unfold step at h
  simp only [hp] at h
  cases h
  by_cases he : q.waiting.isEmpty = true
  · rw [if_pos he]
    exact inv_go hs hu ⟨hready, hlog, ht⟩ rfl ho
  · rw [if_neg he]
    have hne : q.waiting.toList ≠ [] := fun e => he ((Fifo.isEmpty_iff _).mpr e)
    exact inv_go hs hu ⟨hready, hlog, .inr (.inl hne)⟩ rfl ho

theorem Stream.peek {r : LineReader} (h : Stream arrived before r p) (hl : r.line = [])
    {more : Bool} {r' : LineReader} (hf : r.fill p = .known more r' p') :
    Stream arrived before r' p' ∧ r'.line = [] ∧ p'.readable = p.readable ∧
      (if more then r'.unread p' ≠ [] else AtEnd r' p') := by
  rcases LineReader.fill_cases r p with ⟨buffer, bytes, e, hne, hb⟩ | ⟨e, hb, hc, hw⟩ | ⟨e, -⟩
  · rw [e] at hf
    cases hf
    have hu : r.unread p = { r with buffer }.unread { p with bytes } := by
      unfold LineReader.unread
      rw [List.append_assoc, hb, List.append_assoc]
      rfl
    refine ⟨h.moved h.line hu, hl, rfl, ?_⟩
    rw [if_pos rfl]
    unfold LineReader.unread
    rw [hl]
    simp [hne]
  · rw [e] at hf
    cases hf
    refine ⟨h, hl, rfl, ?_⟩
    rw [if_neg (by simp)]
    exact ⟨hw, by rw [LineReader.unread, hl, hb, hc]; rfl⟩
  · rw [e] at hf
    cases hf

theorem inv_peek (hinv : c.Inv sink₀ slots₀ taken log before arrived q p)
    (hp : c.phase = .peeking) (h : c.step q p = some (c', q', p')) :
    Keeps sink₀ slots₀ log arrived q' p' c' := by
  have ho := hinv.open (by simp [result?, hp])
  obtain ⟨hs, hu, hst, -, -⟩ := hinv
  unfold Stage at hst
  simp only [hp] at hst
  obtain ⟨⟨hb, hk, hl⟩, hlog, ht⟩ := hst
  unfold step peek at h
  simp only [hp] at h
  cases hf : c.reader.fill p with
  | blocked => simp [hf] at h
  | known more r p₁ =>
    obtain ⟨hs', hl', hr, hmore⟩ := hs.peek hl hf
    simp only [hf, Option.some.injEq, Prod.mk.injEq] at h
    obtain ⟨rfl, rfl, rfl⟩ := h
    have ho' : q.consuming = true ∧ p₁.readable = true := ⟨ho.1, hr.trans ho.2⟩
    cases more with
    | true => exact inv_go hs' hu ⟨⟨hb, hk, hl'⟩, hlog, ht, hmore⟩ rfl ho'
    | false => exact inv_go hs' hu ⟨⟨hb, hk, hl'⟩, hlog, .inr (.inr hmore)⟩ rfl ho'

theorem inv_confirm (hinv : c.Inv sink₀ slots₀ taken log before arrived q p)
    (hp : c.phase = .confirming) (h : c.step q p = some (c', q', p')) :
    Keeps sink₀ slots₀ log arrived q' p' c' := by
  have ho := hinv.open (by simp [result?, hp])
  obtain ⟨hs, hu, hst, -, -⟩ := hinv
  unfold Stage at hst
  simp only [hp] at hst
  obtain ⟨⟨hb, hk, hl⟩, hlog, ht, hne⟩ := hst
  unfold step at h
  simp only [hp] at h
  by_cases he : q.waiting.isEmpty = true
  · rw [if_pos he] at h
    cases h
    refine inv_leave hs hu ⟨hb, hk, by rw [hu], hne, .inl ⟨?_, ht⟩⟩
    rw [hlog, (Fifo.isEmpty_iff _).mp he, List.append_nil]
  · rw [if_neg he] at h
    cases h
    have hne : q.waiting.toList ≠ [] := fun e => he ((Fifo.isEmpty_iff _).mpr e)
    exact inv_go hs hu ⟨⟨hb, hk, hl⟩, hlog, .inr (.inl hne)⟩ rfl ho

theorem inv_close (hinv : c.Inv sink₀ slots₀ taken log before arrived q p)
    (hp : c.phase = .closing) (h : c.step q p = some (c', q', p')) :
    Keeps sink₀ slots₀ log arrived q' p' c' := by
  obtain ⟨hs, hu, hst, -, -⟩ := hinv
  unfold Stage at hst
  simp only [hp] at hst
  obtain ⟨⟨hb, hk, hl⟩, hlog⟩ := hst
  have hlog' : taken.map .item ++ [.finished] <+: log :=
    ⟨q.waiting.toList, by rw [hlog, List.append_assoc]; rfl⟩
  unfold step peek at h
  simp only [hp] at h
  cases hf : c.reader.fill p with
  | blocked => simp [hf] at h
  | known more r p₁ =>
    obtain ⟨hs', hl', hr, hmore⟩ := hs.peek hl hf
    simp only [hf, Option.some.injEq] at h
    cases more with
    | true =>
      rw [if_pos rfl] at h
      cases h
      exact inv_leave (c := { c with reader := r }) hs' hu
        ⟨hb, hk, by rw [hu], hmore, .inr hlog'⟩
    | false =>
      rw [if_neg (by simp)] at h
      unfold Sink.finish Outlet.flush at h
      by_cases hff : c.sink.outlet.flushFails = true
      · simp only [hff, if_true, Option.map_some] at h
        have hv : Verdict sink₀ slots₀ taken log (lines before) p₁
            { c with reader := r, sink := c.sink.finish.2 } (.error (.io (.os .pipe))) :=
          ⟨rfl, .inr (hk.outlet.2.1 ▸ hff), (List.prefix_append _ _).trans hlog'⟩
        cases h
        exact inv_leave (q := q) hs' hu hv
      · simp only [if_neg hff, Option.map_none] at h
        have hv : Verdict sink₀ slots₀ taken log (lines before) p₁
            { c with reader := r, sink := c.sink.finish.2 } (.ok c.unit) :=
          ⟨hb, ⟨c.sink, hk, rfl⟩, hu, hmore, hlog'⟩
        cases h
        exact inv_leave (q := q) hs' hu hv

/-- **Lines, units and descriptors stay together.** -/
theorem step_inv (h : c.step q p = some (c', q', p'))
    (hinv : c.Inv sink₀ slots₀ taken log before arrived q p) :
    Keeps sink₀ slots₀ log arrived q' p' c' := by
  cases hp : c.phase with
  | consuming => exact inv_consume hinv hp h
  | gathering d missing ls =>
    cases missing with
    | zero => exact inv_deliver hinv hp h
    | succ missing => exact inv_gather hinv hp h
  | watching => exact inv_watch hinv hp h
  | peeking => exact inv_peek hinv hp h
  | confirming => exact inv_confirm hinv hp h
  | closing => exact inv_close hinv hp h
  | returned result =>
    unfold step at h
    simp only [hp] at h
    cases h

/-! ## Steps of others -/

theorem inv_start (sink : Sink) (slots : Slots) (hc : q.consuming = true)
    (hr : p.readable = true) :
    { sink, slots : Collector }.Inv sink slots [] q.waiting.toList [] p.content q p := by
  refine ⟨⟨rfl, ?_, .inl terminated_nil⟩, rfl,
    ⟨⟨?_, Sink.holds_nil sink, rfl⟩, rfl, .inl rfl⟩, ?_, ?_⟩
  · exact List.not_mem_nil
  · rw [lines_nil]
    exact built_nil slots
  · exact hc
  · exact hr

theorem inv_queue (hinv : c.Inv sink₀ slots₀ taken log before arrived q p)
    {messages : List (Message Descriptor)} (hm : messages ≠ [] → q.consuming = true)
    (hw : q'.waiting.toList = q.waiting.toList ++ messages) (hc : q'.consuming = q.consuming) :
    c.Inv sink₀ slots₀ taken (log ++ messages) before arrived q' p := by
  obtain ⟨hs, hu, hst, hcon, hr⟩ := hinv
  refine ⟨hs, hu, ?_, hc.trans hcon, hr⟩
  unfold Stage at hst ⊢
  cases hp : c.phase with
  | consuming =>
    simp only [hp] at hst ⊢
    obtain ⟨hready, hlog, hne⟩ := hst
    refine ⟨hready, by rw [hlog, hw, List.append_assoc], ?_⟩
    rcases hne with h | h | h
    · exact .inl h
    · exact .inr (.inl (by rw [hw]; exact List.append_ne_nil_of_left_ne_nil h _))
    · exact .inr (.inr h)
  | gathering | watching | peeking | confirming =>
    simp only [hp] at hst ⊢
    exact ⟨hst.1, by rw [hst.2.1, hw, List.append_assoc], hst.2.2⟩
  | closing =>
    simp only [hp] at hst ⊢
    exact ⟨hst.1, by rw [hst.2, hw, List.append_assoc]; rfl⟩
  | returned result =>
    simp only [hp] at hst ⊢
    have hn : messages = [] := by
      by_contra h
      have := hm h
      rw [hcon] at this
      simp [result?, hp] at this
    rw [hn, List.append_nil]
    exact hst

/-- What a child may do to its output while it is there: it adds bytes that can be read, and closes
it. -/
structure Grows (p p' : Pipe) (part : Bytes) : Prop where
  content : p'.content = p.content ++ part
  ends : part ≠ [] → p.writable = true ∧ p.readable = true
  writable : p'.writable = true → p.writable = true
  readable : p'.readable = p.readable
  capacity : p'.capacity = p.capacity

theorem grows_write (hw : p.writable = true) (hr : p.readable = true) (part : Bytes) :
    Grows p { p with bytes := p.bytes ++ part } part :=
  ⟨Pipe.content_append p part, fun _ => ⟨hw, hr⟩, id, rfl, rfl⟩

theorem grows_close (p : Pipe) : Grows p p.closeWriter [] :=
  ⟨by simp, fun h => absurd rfl h, fun h => (by cases h), rfl, rfl⟩

theorem Grows.atEnd {part : Bytes} {r : LineReader} (hg : Grows p p' part) (h : AtEnd r p) :
    AtEnd r p' := by
  have hn : part = [] := by
    by_contra hne
    have := (hg.ends hne).1
    rw [h.1] at this
    cases this
  refine ⟨?_, ?_⟩
  · by_contra hw
    have := hg.writable (by simpa using hw)
    rw [h.1] at this
    cases this
  · rw [LineReader.unread, hg.content, hn, List.append_nil]
    exact h.2

theorem Grows.unread {part : Bytes} (hg : Grows p p' part) (r : LineReader) :
    r.unread p' = r.unread p ++ part := by
  rw [LineReader.unread, hg.content, ← List.append_assoc]
  rfl

theorem Stream.grow {part : Bytes} {r : LineReader} (hs : Stream arrived before r p)
    (hg : Grows p p' part) : Stream (arrived ++ part) before r p' :=
  ⟨by rw [hs.bytes, hg.unread, List.append_assoc], hs.line, hs.whole.imp_right hg.atEnd⟩

theorem Verdict.output {part : Bytes} {result : Except Failure Nat} (hg : Grows p p' part)
    (h : Verdict sink₀ slots₀ taken log got p c result) :
    Verdict sink₀ slots₀ taken log got p' c result := by
  cases result with
  | ok n => exact ⟨h.1, h.2.1, h.2.2.1, hg.atEnd h.2.2.2.1, h.2.2.2.2⟩
  | error e =>
    cases e with
    | underProduction k => exact ⟨h.1, h.2.1, hg.atEnd h.2.2.1, h.2.2.2⟩
    | overProduction k =>
      refine ⟨h.1, h.2.1, h.2.2.1, ?_, h.2.2.2.2⟩
      rw [hg.unread]
      exact List.append_ne_nil_of_left_ne_nil h.2.2.2.1 _
    | queueClosed => exact ⟨h.1, h.2.1, h.2.2.1, h.2.2.2.imp_right hg.atEnd⟩
    | _ => exact h

theorem inv_output {part : Bytes} (hinv : c.Inv sink₀ slots₀ taken log before arrived q p)
    (hg : Grows p p' part) :
    c.Inv sink₀ slots₀ taken log before (arrived ++ part) q p' := by
  obtain ⟨hs, hu, hst, hcon, hr⟩ := hinv
  refine ⟨hs.grow hg, hu, ?_, hcon, hg.readable.trans hr⟩
  unfold Stage at hst ⊢
  cases hp : c.phase with
  | consuming =>
    simp only [hp] at hst ⊢
    exact ⟨hst.1, hst.2.1, hst.2.2.imp_right (Or.imp_right hg.atEnd)⟩
  | gathering | watching | peeking | closing =>
    simp only [hp] at hst ⊢
    exact hst
  | confirming =>
    simp only [hp] at hst ⊢
    refine ⟨hst.1, hst.2.1, hst.2.2.1, ?_⟩
    rw [hg.unread]
    exact List.append_ne_nil_of_left_ne_nil hst.2.2.2 _
  | returned result =>
    simp only [hp] at hst ⊢
    exact hst.output hg

/-! ## What the invariant says -/

/-- **The sink holds whole units** until the collector has returned, each made of its own lines. -/
theorem Inv.holds (hinv : c.Inv sink₀ slots₀ taken log before arrived q p)
    (hn : c.result? = none) :
    ∃ done old, done <+: taken ∧ old <+: lines before ∧
      (Descriptor.demands done slots₀).sum = old.length ∧
      sink₀.Holds (built slots₀ done old) c.sink := by
  have hready (h : Built slots₀ taken (lines before) c.slots ∧
      sink₀.Holds (built slots₀ taken (lines before)) c.sink ∧ c.reader.line = []) :
      ∃ done old, done <+: taken ∧ old <+: lines before ∧
        (Descriptor.demands done slots₀).sum = old.length ∧
        sink₀.Holds (built slots₀ done old) c.sink :=
    ⟨taken, lines before, List.prefix_rfl, List.prefix_rfl, h.1.lines, h.2.1⟩
  obtain ⟨-, -, hst, -, -⟩ := hinv
  unfold Stage at hst
  cases hp : c.phase with
  | gathering d missing ls =>
    simp only [hp] at hst
    obtain ⟨⟨done, old, ht, hg, hb, hs, -⟩, -, -⟩ := hst
    exact ⟨done, old, ⟨[d], ht.symm⟩, ⟨ls.reverse, hg.symm⟩, hb.lines, hs⟩
  | consuming | watching | peeking | confirming | closing =>
    simp only [hp] at hst
    exact hready hst.1
  | returned result => simp [result?, hp] at hn

theorem Inv.taken_prefix (hinv : c.Inv sink₀ slots₀ taken log before arrived q p)
    (hn : c.result? = none) : taken.map .item <+: log := by
  obtain ⟨-, -, hst, -, -⟩ := hinv
  unfold Stage at hst
  cases hp : c.phase with
  | consuming | gathering | watching | peeking | confirming =>
    simp only [hp] at hst
    rw [hst.2.1]
    exact List.prefix_append _ _
  | closing =>
    simp only [hp] at hst
    rw [hst.2]
    exact List.prefix_append _ _
  | returned result => simp [result?, hp] at hn

theorem Inv.verdict {result : Except Failure Nat}
    (hinv : c.Inv sink₀ slots₀ taken log before arrived q p) (hr : c.result? = some result) :
    Verdict sink₀ slots₀ taken log (lines before) p c result := by
  obtain ⟨-, -, hst, -, -⟩ := hinv
  unfold Stage at hst
  unfold result? at hr
  cases hp : c.phase with
  | returned r =>
    simp only [hp, Option.some.injEq] at hr hst
    exact hr ▸ hst
  | consuming | gathering | watching | peeking | confirming | closing => simp [hp] at hr

theorem Stream.of_atEnd {r : LineReader} (hs : Stream arrived before r p) (h : AtEnd r p) :
    arrived = before := by
  rw [hs.bytes, h.2, List.append_nil]

theorem Stream.length_lt {r : LineReader} (hs : Stream arrived before r p)
    (h : r.unread p ≠ []) (more : Bytes) :
    (lines before).length < (lines (arrived ++ more)).length := by
  rw [hs.bytes, List.append_assoc, lines_append (hs.terminated h), List.length_append]
  have : lines (r.unread p ++ more) ≠ [] := fun e =>
    h (List.append_eq_nil_iff.mp (lines_eq_nil_iff.mp e)).1
  have := List.length_pos_iff.mpr this
  omega

theorem Stream.lines_prefix {r : LineReader} (hs : Stream arrived before r p) {more : Bytes}
    (hm : p.writable = false → more = []) : lines before <+: lines (arrived ++ more) := by
  rcases hs.whole with ht | he
  · rw [hs.bytes, List.append_assoc, lines_append ht]
    exact List.prefix_append _ _
  · have hall : lines (arrived ++ more) = lines before := by
      rw [hm he.1, List.append_nil, hs.of_atEnd he]
    exact ⟨[], by rw [List.append_nil, hall]⟩

end

end Coprocess.Collector
