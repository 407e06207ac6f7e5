import Coprocess.Proofs.Pipeline.Delivery
import Coprocess.Proofs.Source.Recall
import Coprocess.Proofs.Text.Base64
import Mathlib.Data.List.SplitLengths

/-!
# Alignment

The output has one line for each line of the input, whatever the child writes. No unit of a line
tool holds a line feed of its own: lines of the child have none, delimiters come from a line of the
input, and base64 has none.

* `Sink.shown`: a unit as it stands in the output;
* `Source.blocks`: the answers of the child, those for each unit apart;
* `Source.Kind.Makes`: the unit of a line, by the answers that belong to it;
* `Source.makes_of_sends`, `Source.makes_of_cache`: the units of all lines;
* **`Pipeline.one_line_each`**: a collector that succeeds has written one line for each line.
-/

namespace Coprocess

open Descriptor (assembleAll demands)

/-! ## Lines of a sink -/

namespace Sink

/-- A unit as it stands in the output, before its line feed. -/
def shown (format : Format) (unit : Bytes) : Bytes :=
  match format with
  | .line => unit
  | .document => Base64.encode unit

theorem render_eq (format : Format) (unit : Bytes) :
    render format unit = shown format unit ++ [lf] := by
  cases format <;> rfl

theorem terminated_render (format : Format) (units : List Bytes) :
    Terminated (units.map (render format)).flatten := by
  induction units with
  | nil => exact terminated_nil
  | cons unit units ih =>
    rw [List.map_cons, List.flatten_cons, render_eq]
    exact (terminated_concat _).append ih

theorem lines_render {format : Format} {units : List Bytes}
    (h : format = .line → ∀ unit ∈ units, lf ∉ unit) :
    lines (units.map (render format)).flatten = units.map (shown format) := by
  have hshown : ∀ l ∈ units.map (shown format), lf ∉ l := by
    intro l hl
    obtain ⟨unit, hu, rfl⟩ := List.mem_map.mp hl
    cases format with
    | line => exact h rfl unit hu
    | document => exact Base64.lf_not_mem_encode unit
  have hrender : (units.map (render format)).flatten =
      (units.map (shown format)).flatMap (· ++ [lf]) := by
    rw [List.flatMap_map, List.flatMap_def]
    congr 1
    exact List.map_congr_left fun unit _ => render_eq format unit
  rw [hrender, lines_flatMap hshown]

end Sink

namespace Source

/-! ## The unit of a line -/

/-- How the units of a source are written. -/
def Kind.format : Kind → Sink.Format
  | .document => .document
  | .fold _ | .cache _ => .line

/-- The answers of a child, those for each unit apart. -/
def blocks (s : Source) (answered : Bytes) : List (List Bytes) :=
  (demands (descriptors s.parcels) {}).splitLengths (lines answered)

theorem length_blocks (s : Source) (answered : Bytes) :
    (s.blocks answered).length = s.parcels.length := by
  rw [blocks, List.length_splitLengths, Descriptor.length_demands, List.length_map]

theorem flatten_blocks {s : Source} {answered : Bytes}
    (hsum : (demands (descriptors s.parcels) {}).sum = (lines answered).length) :
    (s.blocks answered).flatten = lines answered :=
  List.flatten_splitLengths _ _ (Nat.le_of_eq hsum.symm)

theorem lf_not_mem_of_mem_blocks {s : Source} {answered : Bytes} {block : List Bytes}
    {answer : Bytes}
    (hsum : (demands (descriptors s.parcels) {}).sum = (lines answered).length)
    (hb : block ∈ s.blocks answered) (ha : answer ∈ block) : lf ∉ answer := by
  have hmem : answer ∈ (s.blocks answered).flatten := List.mem_flatten.mpr ⟨block, hb, ha⟩
  rw [flatten_blocks hsum] at hmem
  exact not_mem_of_mem_lines hmem

/-- The unit that a line and the answers for it are put together to. -/
def Kind.PutsTogether (kind : Kind) (line : Bytes) (block : List Bytes) (unit : Bytes) : Prop :=
  ∃ parcel, (describe kind [] 0 line).1 = .ok parcel ∧
    block.length = parcel.descriptor.expected {} ∧
    unit = (parcel.descriptor.assemble block {}).1

/-- The unit of the line at `i`: that of a cache is the one answer for the first line with the same
key, all others are put together from the line and the answers for it. -/
def Kind.Makes (kind : Kind) (ls : List Bytes) (blocks : List (List Bytes)) (i : Nat)
    (line unit : Bytes) : Prop :=
  match kind with
  | .cache key => blocks[ls.findIdx fun first => key.of first = key.of line]? = some [unit]
  | .document | .fold _ => ∃ block, blocks[i]? = some block ∧ kind.PutsTogether line block unit

section

variable {kind : Kind} {ls : List Bytes} {blocks : List (List Bytes)} {i : Nat} {line unit : Bytes}

/-- A unit of wrapped text has no line feed: neither have the answers, nor the delimiters. -/
theorem lf_not_mem_of_putsTogether {options : WrapOptions} {block : List Bytes} (hl : lf ∉ line)
    (hb : ∀ answer ∈ block, lf ∉ answer)
    (h : (Kind.fold options).PutsTogether line block unit) : lf ∉ unit := by
  obtain ⟨parcel, hparcel, -, rfl⟩ := h
  obtain ⟨text, hd, rfl, -⟩ := of_describe_fold (Prod.ext hparcel rfl)
  intro hm
  obtain ⟨joined, hj, hm⟩ := List.mem_flatten.mp hm
  rw [← List.map_uncurry_zip_eq_zipWith] at hj
  obtain ⟨⟨answer, delimiter⟩, hz, rfl⟩ := List.mem_map.mp hj
  obtain ⟨ha, hdel⟩ := List.of_mem_zip hz
  rcases List.mem_append.mp hm with hm | hm
  · exact hb answer ha hm
  · obtain ⟨piece, hp, rfl⟩ := List.mem_map.mp hdel
    have hnewline := mem_of_mem_wrap hp (List.mem_append_right _ (Utf8.lf_mem_encode hm))
    exact Utf8.newline_not_mem_decode hd hl hnewline

theorem lf_not_mem_of_makes (hk : kind.format = .line) (hl : lf ∉ line)
    (hb : ∀ block ∈ blocks, ∀ answer ∈ block, lf ∉ answer)
    (h : kind.Makes ls blocks i line unit) : lf ∉ unit := by
  cases kind with
  | document => cases hk
  | fold options =>
    obtain ⟨block, hblock, hunit⟩ := h
    exact lf_not_mem_of_putsTogether hl (hb block (List.mem_of_getElem? hblock)) hunit
  | cache key => exact hb [unit] (List.mem_of_getElem? h) unit List.mem_cons_self

end

/-! ## All units -/

section

variable {kind : Kind} {s : Source}

theorem describe_of_sends {keys keys' : List Bytes} {unit : Nat} {line : Bytes} {p : Parcel}
    (hk : kind.Sends) (h : describe kind keys unit line = (.ok p, keys')) :
    (describe kind [] 0 line).1 = .ok p ∧ ∀ slots,
      p.descriptor.expected slots = p.descriptor.expected {} ∧
      ∀ block, p.descriptor.assemble block slots = ((p.descriptor.assemble block {}).1, slots) := by
  cases kind with
  | document =>
    obtain ⟨document, hd, rfl, -⟩ := of_describe_document h
    refine ⟨?_, fun slots => ⟨rfl, fun block => rfl⟩⟩
    unfold describe
    rw [hd]
  | fold options =>
    obtain ⟨text, hd, rfl, -⟩ := of_describe_fold h
    refine ⟨?_, fun slots => ⟨rfl, fun block => rfl⟩⟩
    unfold describe
    rw [hd]
  | cache key => exact hk.elim

/-- **Without a cache** each unit is put together from its own line and the answers for it. -/
theorem makes_of_sends (hk : s.kind.Sends) (hfault : s.fault? = none) {answers : List Bytes}
    {slots : Slots} (hsum : (demands (descriptors s.parcels) slots).sum = answers.length)
    {i : Nat} {line : Bytes} (hi : (lines s.input)[i]? = some line) :
    ∃ block unit, ((demands (descriptors s.parcels) slots).splitLengths answers)[i]? = some block ∧
      (assembleAll (descriptors s.parcels) answers slots).1[i]? = some unit ∧
      s.kind.PutsTogether line block unit := by
  induction s using line_by_line generalizing answers i with
  | nil s hnil hp =>
    rw [hnil, lines_nil] at hi
    cases hi
  | line s s' first p hl hlines hd hkind hp hf ih =>
    obtain ⟨hself, hplain⟩ := describe_of_sends hk hd
    obtain ⟨hexp, hasm⟩ := hplain slots
    simp only [hp, List.map_cons, demands, hasm, List.sum_cons] at hsum ⊢
    simp only [assembleAll, hasm, List.splitLengths_cons]
    rw [hlines] at hi
    cases i with
    | zero =>
      obtain rfl := Option.some.inj hi
      refine ⟨_, _, rfl, rfl, p, hself, ?_, rfl⟩
      rw [List.length_take, ← hexp]
      omega
    | succ i =>
      have hleft : (demands (descriptors s'.parcels) slots).sum =
          (answers.drop (p.descriptor.expected slots)).length := by
        rw [List.length_drop]
        exact Nat.eq_sub_of_add_eq' hsum
      rw [← hkind]
      exact ih (hkind ▸ hk) (hf ▸ hfault) hleft hi
  | malformed s e he => cases he.symm.trans hfault

end

/-! ### With a cache -/

/-- The unit of a line is kept for its key, or it is the answer for the first line with its key. -/
def Known (key : CacheKey) (keys kept ls : List Bytes) (blocks : List (List Bytes)) (i : Nat)
    (line unit : Bytes) : Prop :=
  (∃ slot : Nat, keys[slot]? = some (key.of line) ∧ kept[slot]? = some unit) ∨
    key.of line ∉ keys ∧ (Kind.cache key).Makes ls blocks i line unit

section

variable {key : CacheKey} {keys kept ls block : List Bytes} {blocks : List (List Bytes)} {i : Nat}
  {first line unit reply : Bytes}

theorem makes_first (h : key.of first = key.of line) (ls : List Bytes)
    (blocks : List (List Bytes)) (i : Nat) :
    (Kind.cache key).Makes (first :: ls) ([unit] :: blocks) i line unit := by
  simp only [Kind.Makes, List.findIdx_cons, decide_eq_true h, cond_true]
  rfl

theorem makes_behind (h : key.of first ≠ key.of line)
    (hm : (Kind.cache key).Makes ls blocks i line unit) :
    (Kind.cache key).Makes (first :: ls) (block :: blocks) (i + 1) line unit := by
  simp only [Kind.Makes, List.findIdx_cons, decide_eq_false h, cond_false]
  exact hm

theorem Known.behind_repeat (h : Known key keys kept ls blocks i line unit)
    (hrepeat : key.of first ∈ keys) :
    Known key keys kept (first :: ls) ([] :: blocks) (i + 1) line unit := by
  rcases h with hold | ⟨hnew, hmakes⟩
  · exact .inl hold
  · have hne : key.of first ≠ key.of line := fun e => hnew (e ▸ hrepeat)
    exact .inr ⟨hnew, makes_behind hne hmakes⟩

theorem Known.behind_new (h : Known key (keys ++ [key.of first]) (kept ++ [reply]) ls blocks i line
      unit) (hlen : kept.length = keys.length) (hfirst : key.of first ∉ keys) :
    Known key keys kept (first :: ls) ([reply] :: blocks) (i + 1) line unit := by
  rcases h with ⟨slot, hslot, hkept⟩ | ⟨hnew, hmakes⟩
  · rcases Nat.lt_or_ge slot keys.length with hlt | hge
    · rw [List.getElem?_append_left hlt] at hslot
      rw [List.getElem?_append_left (hlen ▸ hlt)] at hkept
      exact .inl ⟨slot, hslot, hkept⟩
    · -- The answer is the one that the line in front got.
      rw [List.getElem?_append_right hge, List.getElem?_singleton] at hslot
      rw [List.getElem?_append_right (hlen ▸ hge), List.getElem?_singleton, hlen] at hkept
      split_ifs at hslot hkept
      obtain rfl := Option.some.inj hkept
      have hsame := Option.some.inj hslot
      exact .inr ⟨hsame ▸ hfirst, makes_first hsame _ _ _⟩
  · rw [List.mem_append, List.mem_singleton, not_or] at hnew
    exact .inr ⟨hnew.1, makes_behind (Ne.symm hnew.2) hmakes⟩

/-- **With a cache** each unit is the answer for the first line with its key, which may be kept. The
slots hold the answers in `kept`, one for each key seen so far. -/
theorem makes_of_cache {s : Source} (hs : s.kind = .cache key) {answers : List Bytes}
    {slots : Slots} (hslots : ∀ i, slots.get? i = kept[i]?) (hlen : kept.length = s.keys.length)
    (hsum : (demands (descriptors s.parcels) slots).sum = answers.length)
    (hi : (lines s.input)[i]? = some line) :
    ∃ unit, (assembleAll (descriptors s.parcels) answers slots).1[i]? = some unit ∧
      Known key s.keys kept (lines s.input)
        ((demands (descriptors s.parcels) slots).splitLengths answers) i line unit := by
  induction s using line_by_line generalizing answers kept slots i with
  | nil s hnil hp =>
    rw [hnil, lines_nil] at hi
    cases hi
  | line s s' first p hl hlines hd hkind hp hf ih =>
    rw [hs] at hd
    rw [hlines] at hi ⊢
    simp only [hp, List.map_cons, demands, List.sum_cons] at hsum ⊢
    simp only [assembleAll, List.splitLengths_cons]
    rcases describe_cache key s.keys (s.read + 1) first with ⟨slot, hlt, hslot, he⟩ | ⟨hnew, he⟩
    · -- A repeat takes no answer, and the slots stay as they are.
      obtain ⟨he, hk⟩ := Prod.mk.inj (hd.symm.trans he)
      cases he
      obtain ⟨reply, hreply⟩ : ∃ reply, kept[slot]? = some reply :=
        ⟨kept[slot], List.getElem?_eq_getElem (hlen ▸ hlt)⟩
      obtain ⟨hexp, hasm⟩ := cached_kept ((hslots slot).trans hreply)
      simp only [hexp, List.take_zero, List.drop_zero, hasm, Nat.zero_add] at hsum ⊢
      cases i with
      | zero =>
        obtain rfl := Option.some.inj hi
        exact ⟨reply, rfl, .inl ⟨slot, hslot, hreply⟩⟩
      | succ i =>
        have hlen' : kept.length = s'.keys.length := by rw [hk, hlen]
        obtain ⟨unit, hunit, hknown⟩ := ih (hkind.trans hs) hslots hlen' hsum hi
        rw [hk] at hknown
        exact ⟨unit, hunit, hknown.behind_repeat (List.mem_of_getElem? hslot)⟩
    · -- A line that is new takes one answer, which fills the next slot.
      obtain ⟨he, hk⟩ := Prod.mk.inj (hd.symm.trans he)
      cases he
      have hempty : slots.get? s.keys.length = none := by
        rw [hslots, List.getElem?_eq_none (Nat.le_of_eq hlen)]
      obtain ⟨hexp, -⟩ := cached_fresh [] hempty
      obtain ⟨reply, later, rfl⟩ : ∃ reply later, answers = reply :: later := by
        cases answers with
        | nil =>
          rw [hexp, List.length_nil] at hsum
          omega
        | cons reply later => exact ⟨reply, later, rfl⟩
      obtain ⟨-, hasm⟩ := cached_fresh reply hempty
      -- The demands of the other units do not depend on the answer.
      have hdemands := Descriptor.demands_congr (descriptors s'.parcels)
        (Descriptor.assemble_congr (Slots.Alike.refl slots) (.cached s.keys.length) [] [reply])
      rw [hasm] at hdemands
      simp only [hexp, List.take_succ_cons, List.take_zero, List.drop_succ_cons, List.drop_zero,
        hasm, hdemands, List.length_cons] at hsum ⊢
      cases i with
      | zero =>
        obtain rfl := Option.some.inj hi
        exact ⟨reply, rfl, .inr ⟨hnew, makes_first rfl _ _ _⟩⟩
      | succ i =>
        have hfill (j : Nat) : (slots.fill s.keys.length reply).get? j = (kept ++ [reply])[j]? :=
          hlen ▸ Slots.get?_fill_next hslots reply j
        have hlen' : (kept ++ [reply]).length = s'.keys.length := by
          rw [hk, List.length_append, List.length_append, hlen]
          rfl
        have hleft := Nat.add_left_cancel (hsum.trans (Nat.add_comm later.length 1))
        obtain ⟨unit, hunit, hknown⟩ := ih (hkind.trans hs) hfill hlen' hleft hi
        rw [hk] at hknown
        exact ⟨unit, hunit, hknown.behind_new hlen hnew⟩
  | malformed s e he => cases he.symm.trans (fault?_cache hs)

end

/-! ### In general -/

section

variable {kind : Kind} {input answered line unit : Bytes} {i : Nat}

/-- **Each line has its own unit.** -/
theorem makes_each (hfault : fault? { kind, input } = none)
    (hsum : (demands (descriptors (parcels { kind, input })) {}).sum = (lines answered).length)
    (hi : (lines input)[i]? = some line) :
    ∃ unit, (assembleAll (descriptors (parcels { kind, input })) (lines answered) {}).1[i]? =
        some unit ∧
      kind.Makes (lines input) (blocks { kind, input } answered) i line unit := by
  cases kind with
  | document =>
    obtain ⟨block, unit, hblock, hunit, hmakes⟩ :=
      makes_of_sends (s := { kind := .document, input }) trivial hfault hsum hi
    exact ⟨unit, hunit, block, hblock, hmakes⟩
  | fold options =>
    obtain ⟨block, unit, hblock, hunit, hmakes⟩ :=
      makes_of_sends (s := { kind := .fold options, input }) trivial hfault hsum hi
    exact ⟨unit, hunit, block, hblock, hmakes⟩
  | cache key =>
    have hslots (i : Nat) : ({} : Slots).get? i = ([] : List Bytes)[i]? := rfl
    obtain ⟨unit, hunit, ⟨slot, hslot, -⟩ | ⟨-, hmakes⟩⟩ :=
      makes_of_cache (s := { kind := .cache key, input }) rfl hslots rfl hsum hi
    · cases hslot
    · exact ⟨unit, hunit, hmakes⟩

theorem lf_not_mem_of_mem_units (hk : kind.format = .line)
    (hfault : fault? { kind, input } = none)
    (hsum : (demands (descriptors (parcels { kind, input })) {}).sum = (lines answered).length)
    (hu : unit ∈ (assembleAll (descriptors (parcels { kind, input })) (lines answered) {}).1) :
    lf ∉ unit := by
  obtain ⟨i, hi⟩ := List.mem_iff_getElem?.mp hu
  obtain ⟨hlt, -⟩ := List.getElem?_eq_some_iff.mp hi
  rw [Descriptor.length_assembleAll, List.length_map, length_parcels hfault] at hlt
  have hline := List.getElem?_eq_getElem hlt
  obtain ⟨own, hown, hmakes⟩ := makes_each hfault hsum hline
  obtain rfl := Option.some.inj (hi.symm.trans hown)
  refine lf_not_mem_of_makes hk (not_mem_of_mem_lines (List.mem_of_getElem? hline)) ?_ hmakes
  intro block hblock answer hanswer
  exact lf_not_mem_of_mem_blocks hsum hblock hanswer

end

end Source

namespace Pipeline

variable {σ : Type} {act : σ → Act σ} {Allowed : Pipeline σ → Transcript → Prop}

/-- **One line for each line.** Whatever a child writes, when the collector of a line tool succeeds
it has counted the lines of the input, and the answers are cut into as many blocks, one for each.
What it has written are whole lines, again as many: at each place stands the unit that the line of
the input at this place has by its own block, or with a cache by the block of the first line with
the same key. No unit that is written as it is has a line feed. -/
theorem one_line_each {kind : Source.Kind} {input : Bytes} {flow : Flow} {child : Child σ}
    {outlet : Outlet} {inputCapacity outputCapacity : Nat} {p : Pipeline σ} {t : Transcript}
    {n : Nat}
    (hr : Reaches act Allowed (start { kind, input } flow child { format := kind.format, outlet }
      { capacity := inputCapacity } { capacity := outputCapacity }) p t)
    (hn : p.collector.result? = some (.ok n)) :
    let blocks := Source.blocks { kind, input } t.answered
    n = (lines input).length ∧ blocks.length = n ∧ blocks.flatten = lines t.answered ∧
    ∃ (units : List Bytes) (output : Bytes),
      p.collector.sink.outlet.written = outlet.written ++ output ∧ Terminated output ∧
      lines output = units.map (Sink.shown kind.format) ∧ units.length = n ∧
      (kind.format = .line → ∀ unit ∈ units, lf ∉ unit) ∧
      ∀ (i : Nat) line, (lines input)[i]? = some line →
        ∃ unit, units[i]? = some unit ∧ kind.Makes (lines input) blocks i line unit := by
  intro blocks
  obtain ⟨published, taken, log, before, hinv⟩ := reaches_inv hr (inv_begin _ _ _ _ _ _)
  obtain ⟨hfault, rfl, -, hsum, hwritten⟩ := hinv.collected hn
  let units := (assembleAll (descriptors (Source.parcels { kind, input })) (lines t.answered) {}).1
  have hunits : units.length = (Source.parcels { kind, input }).length := by
    rw [Descriptor.length_assembleAll, List.length_map]
  have hfree : kind.format = .line → ∀ unit ∈ units, lf ∉ unit := fun hk unit hu =>
    Source.lf_not_mem_of_mem_units hk hfault hsum hu
  refine ⟨Source.length_parcels hfault, Source.length_blocks _ _, Source.flatten_blocks hsum,
    units, _, hwritten, Sink.terminated_render _ _, Sink.lines_render hfree, hunits, hfree, ?_⟩
  intro i line hi
  exact Source.makes_each hfault hsum hi

/-- Two equal lines, the last without line feed: the child answers one line, and two are written. -/
theorem one_line_each_repeat :
    let source : Source := { kind := .cache {}, input := [97, lf, 97] }
    ∃ p t, (Reaches copy (fun _ _ => True) (start source { flushEvery := 1 } copier {}
        { capacity := 4 } { capacity := 4 }) p t ∧ p.collector.result? = some (.ok 2)) ∧
      Terminated p.collector.sink.outlet.written ∧
      (lines p.collector.sink.outlet.written).length = 2 ∧
      ∃ unit, (lines p.collector.sink.outlet.written)[1]? = some unit ∧
        (source.blocks t.answered)[0]? = some [unit] := by
  intro source
  let s := start source { flushEvery := 1 } copier {} { capacity := 4 } { capacity := 4 }
  have hrun : (drive copy (fun _ _ => true) [.collector, .child, .feeder] 29 s {}).map
      (fun pt => pt.1.collector.result?.bind Except.toOption) = some (some 2) := by
    decide +kernel
  obtain ⟨⟨p, t⟩, hd, he⟩ := Option.map_eq_some_iff.mp hrun
  have hr := reaches_drive (fun _ _ _ => trivial) (.start trivial) hd
  have hn := eq_ok_of_toOption he
  obtain ⟨-, -, -, units, output, hw, hterminated, hlines, hlength, -, hmakes⟩ :=
    one_line_each hr hn
  have hinput : lines [97, lf, 97] = [[97], [97]] := by
    have hbytes : [97, lf, 97] = [97] ++ lf :: [97] := rfl
    rw [hbytes, lines_line (by decide), lines_rest (by decide) (by decide)]
  obtain ⟨unit, hunit, hblock⟩ := hmakes 1 [97] (by rw [hinput]; rfl)
  rw [hinput] at hblock
  have hwritten : p.collector.sink.outlet.written = output := hw
  have hshown : lines output = units := hlines.trans (List.map_id units)
  refine ⟨p, t, ⟨hr, hn⟩, ?_⟩
  rw [hwritten, hshown]
  exact ⟨hterminated, hlength, unit, hunit, hblock⟩

end Pipeline

end Coprocess
