import Coprocess.Proofs.Collector.Assembly
import Coprocess.Proofs.Wrap.Text
import Coprocess.Source

/-!
# The parcels of a source

* `Source.parcels`, `Source.fault?`: what a source yields until it ends or finds a malformed line;
  `Source.units`: what it yields of all lines;
* `Source.next_eq_some`, `Source.line_by_line`: a source reads one line after the other;
* `Source.of_describe_document`, `Source.of_describe_fold`, `Source.describe_cache`: what a source
  makes of a line;
* `Source.Keyed`: the slots that a source counts on are filled;
* **`Source.fair_units`**: each unit takes as many lines as it sends once those before it are put
  together; **`Source.sum_demands`**: so do all that come first, and what they send are whole lines;
* `Source.Kind.Sends`: sources that send something for every line.
-/

namespace Coprocess

/-- The descriptors of parcels. -/
abbrev descriptors (ps : List Parcel) : List Descriptor := ps.map Parcel.descriptor

/-- The lines for the child, one parcel after the other. -/
def payloads (ps : List Parcel) : Bytes := ps.flatMap Parcel.payload

@[simp] theorem payloads_nil : payloads [] = [] := rfl

@[simp] theorem payloads_append (ps qs : List Parcel) :
    payloads (ps ++ qs) = payloads ps ++ payloads qs := List.flatMap_append

@[simp] theorem payloads_cons (p : Parcel) (ps : List Parcel) :
    payloads (p :: ps) = p.payload ++ payloads ps := rfl

theorem length_payload_le {p : Parcel} {ps : List Parcel} (h : p ∈ ps) :
    p.payload.length ≤ (payloads ps).length := by
  obtain ⟨before, after, rfl⟩ := List.append_of_mem h
  rw [payloads_append, payloads_cons, List.length_append, List.length_append]
  omega

theorem lines_payloads {ps : List Parcel} (h : ∀ p ∈ ps, Terminated p.payload) :
    lines (payloads ps) = ps.flatMap fun p => lines p.payload := by
  induction ps with
  | nil => exact lines_nil
  | cons p ps ih =>
    rw [payloads_cons, lines_append (h p List.mem_cons_self), List.flatMap_cons,
      ih fun q hq => h q (List.mem_cons_of_mem p hq)]

namespace Source

/-! ## All parcels -/

/-- The parcels before the end of the input or a malformed line. -/
def parcels (s : Source) : List Parcel :=
  match _h : s.next with
  | some (.ok parcel, s') => parcel :: parcels s'
  | _ => []
termination_by s.input.length
decreasing_by exact next_input_lt _h

/-- The first malformed line, if there is one. -/
def fault? (s : Source) : Option Failure :=
  match _h : s.next with
  | some (.ok _, s') => fault? s'
  | some (.error failure, _) => some failure
  | none => none
termination_by s.input.length
decreasing_by exact next_input_lt _h

/-- The parcels of all lines; malformed lines are passed over. -/
def units (s : Source) : List Parcel :=
  match _h : s.next with
  | some (.ok parcel, s') => parcel :: units s'
  | some (.error _, s') => units s'
  | none => []
termination_by s.input.length
decreasing_by all_goals exact next_input_lt _h

theorem parcels_of_ok {s s' : Source} {p : Parcel} (h : s.next = some (.ok p, s')) :
    s.parcels = p :: s'.parcels := by
  rw [parcels]
  split <;> simp_all

theorem fault?_of_ok {s s' : Source} {p : Parcel} (h : s.next = some (.ok p, s')) :
    s.fault? = s'.fault? := by
  rw [fault?]
  split <;> simp_all

theorem of_error {s s' : Source} {e : Failure} (h : s.next = some (.error e, s')) :
    s.parcels = [] ∧ s.fault? = some e := by
  rw [parcels, fault?]
  constructor <;> split <;> simp_all

theorem of_none {s : Source} (h : s.next = none) : s.parcels = [] ∧ s.fault? = none := by
  rw [parcels, fault?]
  constructor <;> split <;> simp_all

theorem units_of_ok {s s' : Source} {p : Parcel} (h : s.next = some (.ok p, s')) :
    s.units = p :: s'.units := by
  rw [units]
  split <;> simp_all

theorem units_of_error {s s' : Source} {e : Failure} (h : s.next = some (.error e, s')) :
    s.units = s'.units := by
  rw [units]
  split <;> simp_all

theorem units_of_none {s : Source} (h : s.next = none) : s.units = [] := by
  rw [units]
  split <;> simp_all

theorem parcels_prefix_units (s : Source) : s.parcels <+: s.units := by
  induction s using parcels.induct with
  | case1 s p s' hn ih =>
    rw [parcels_of_ok hn, units_of_ok hn]
    exact (List.prefix_cons_inj p).mpr ih
  | case2 s hn =>
    rw [parcels]
    split
    · exact absurd ‹_› (hn _ _)
    · exact List.nil_prefix

theorem next_of_parcels {s : Source} {p : Parcel} {rest : List Parcel}
    (h : s.parcels = p :: rest) :
    ∃ s', s.next = some (.ok p, s') ∧ s'.parcels = rest := by
  cases hn : s.next with
  | none =>
    rw [(of_none hn).1] at h
    cases h
  | some rs =>
    obtain ⟨r, s'⟩ := rs
    cases r with
    | error e =>
      rw [(of_error hn).1] at h
      cases h
    | ok q =>
      rw [parcels_of_ok hn] at h
      obtain ⟨rfl, hrest⟩ := List.cons.inj h
      exact ⟨s', rfl, hrest⟩

/-! ## Line by line -/

theorem nextLine?_not_mem {s line rest : Bytes} (h : nextLine? s = some (line, rest)) :
    lf ∉ line := by
  induction s using line_induction with
  | nil => simp [nextLine?] at h
  | rest l hl hne =>
    rw [nextLine?_rest hl hne] at h
    obtain ⟨rfl, -⟩ := by simpa using h
    exact hl
  | line l s hl _ =>
    rw [nextLine?_line hl] at h
    obtain ⟨rfl, -⟩ := by simpa using h
    exact hl

theorem next_eq_some {s s' : Source} {r : Except Failure Parcel} (h : s.next = some (r, s')) :
    ∃ line, lf ∉ line ∧ lines s.input = line :: lines s'.input ∧
      describe s.kind s.keys (s.read + 1) line = (r, s'.keys) ∧ s'.kind = s.kind := by
  unfold next at h
  cases hn : nextLine? s.input with
  | none => simp [hn] at h
  | some lr =>
    obtain ⟨line, rest⟩ := lr
    simp only [hn, Option.some.injEq, Prod.mk.injEq] at h
    obtain ⟨hr, rfl⟩ := h
    exact ⟨line, nextLine?_not_mem hn, lines_of_nextLine? hn, Prod.ext hr rfl, rfl⟩

theorem input_of_none {s : Source} (h : s.next = none) : s.input = [] := by
  unfold next nextLine? at h
  by_contra he
  simp [he] at h

/-- A source is at its end, or it makes a parcel of a line and goes on, or it finds one
malformed. -/
theorem line_by_line {motive : Source → Prop}
    (nil : ∀ s, s.input = [] → s.parcels = [] → motive s)
    (line : ∀ s s' line p, lf ∉ line → lines s.input = line :: lines s'.input →
      describe s.kind s.keys (s.read + 1) line = (.ok p, s'.keys) → s'.kind = s.kind →
      s.parcels = p :: s'.parcels → s.fault? = s'.fault? → motive s' → motive s)
    (malformed : ∀ s e, s.fault? = some e → motive s) (s : Source) : motive s := by
  induction s using parcels.induct with
  | case1 s p s' hn ih =>
    obtain ⟨l, hl, hlines, hd, hkind⟩ := next_eq_some hn
    exact line s s' l p hl hlines hd hkind (parcels_of_ok hn) (fault?_of_ok hn) ih
  | case2 s hn =>
    cases hs : s.next with
    | none => exact nil s (input_of_none hs) (of_none hs).1
    | some rs =>
      obtain ⟨r, s'⟩ := rs
      cases r with
      | ok p => exact absurd hs (hn p s')
      | error e => exact malformed s e (of_error hs).2

theorem of_mem_units {s : Source} {p : Parcel} (hp : p ∈ s.units) :
    ∃ keys keys' unit line, lf ∉ line ∧ describe s.kind keys unit line = (.ok p, keys') := by
  induction s using units.induct with
  | case1 s q s' hn ih =>
    obtain ⟨line, hl, -, hd, hkind⟩ := next_eq_some hn
    rw [units_of_ok hn] at hp
    rcases List.mem_cons.mp hp with rfl | hp
    · exact ⟨s.keys, s'.keys, s.read + 1, line, hl, hd⟩
    · rw [← hkind]
      exact ih hp
  | case2 s e s' hn ih =>
    obtain ⟨line, -, -, -, hkind⟩ := next_eq_some hn
    rw [units_of_error hn] at hp
    rw [← hkind]
    exact ih hp
  | case3 s hn =>
    rw [units_of_none hn] at hp
    cases hp

theorem of_mem_parcels {s : Source} {p : Parcel} (hp : p ∈ s.parcels) :
    ∃ keys keys' unit line, lf ∉ line ∧ describe s.kind keys unit line = (.ok p, keys') :=
  of_mem_units ((parcels_prefix_units s).subset hp)

theorem fault?_eq_none {s : Source} (h : ∀ line ∈ lines s.input, ∀ keys unit,
    ∃ p keys', describe s.kind keys unit line = (.ok p, keys')) : s.fault? = none := by
  induction s using parcels.induct with
  | case1 s p s' hn ih =>
    obtain ⟨l, -, hlines, -, hkind⟩ := next_eq_some hn
    rw [fault?_of_ok hn]
    refine ih fun line hm => ?_
    rw [hkind]
    exact h line (hlines ▸ List.mem_cons_of_mem l hm)
  | case2 s hn =>
    cases hs : s.next with
    | none => exact (of_none hs).2
    | some rs =>
      obtain ⟨r, s'⟩ := rs
      obtain ⟨l, -, hlines, hd, -⟩ := next_eq_some hs
      obtain ⟨p, keys', hp⟩ := h l (hlines ▸ List.mem_cons_self) s.keys (s.read + 1)
      obtain ⟨rfl, -⟩ := Prod.mk.inj (hd.symm.trans hp)
      exact absurd hs (hn p s')

theorem length_parcels {s : Source} (h : s.fault? = none) :
    s.parcels.length = (lines s.input).length := by
  induction s using line_by_line with
  | nil s hi hp => simp [hi, hp]
  | line s s' l p _ hlines _ _ hp hf ih =>
    rw [hp, hlines, List.length_cons, List.length_cons, ih (hf ▸ h)]
  | malformed s e he => cases he.symm.trans h

/-! ## What a line is described as -/

theorem of_describe_document {keys keys' : List Bytes} {unit : Nat} {line : Bytes} {p : Parcel}
    (h : describe .document keys unit line = (.ok p, keys')) :
    ∃ document, Base64.decode line = .ok document ∧ p = describeDocument document ∧
      keys' = keys := by
  unfold describe at h
  cases hd : Base64.decode line with
  | error fault =>
    rw [hd] at h
    cases h
  | ok document =>
    rw [hd] at h
    cases h
    exact ⟨document, rfl, rfl, rfl⟩

theorem of_describe_fold {options : WrapOptions} {keys keys' : List Bytes} {unit : Nat}
    {line : Bytes} {p : Parcel} (h : describe (.fold options) keys unit line = (.ok p, keys')) :
    ∃ text, Utf8.decode line = .ok text ∧ p = foldParcel options text ∧ keys' = keys := by
  unfold describe at h
  cases hd : Utf8.decode line with
  | error fault =>
    rw [hd] at h
    cases h
  | ok text =>
    rw [hd] at h
    cases h
    exact ⟨text, rfl, rfl, rfl⟩

theorem describe_cache (key : CacheKey) (keys : List Bytes) (unit : Nat) (line : Bytes) :
    (∃ slot, slot < keys.length ∧ keys[slot]? = some (key.of line) ∧
        describe (.cache key) keys unit line = (.ok ⟨.cached slot, []⟩, keys)) ∨
      key.of line ∉ keys ∧ describe (.cache key) keys unit line =
        (.ok ⟨.cached keys.length, line ++ [lf]⟩, keys ++ [key.of line]) := by
  rw [describe]
  cases hi : keys.idxOf? (key.of line) with
  | none => exact .inr ⟨List.idxOf?_eq_none_iff.mp hi, rfl⟩
  | some slot =>
    obtain ⟨hlt, he, -⟩ := List.idxOf?_eq_some_iff.mp hi
    exact .inl ⟨slot, hlt, by rw [List.getElem?_eq_getElem hlt, he], rfl⟩

theorem describe_error {kind : Kind} {keys keys' : List Bytes} {unit : Nat} {line : Bytes}
    {e : Failure} (h : describe kind keys unit line = (.error e, keys')) : keys' = keys := by
  cases kind with
  | document =>
    unfold describe at h
    cases hd : Base64.decode line <;> rw [hd] at h <;> cases h
    rfl
  | fold options =>
    unfold describe at h
    cases hd : Utf8.decode line <;> rw [hd] at h <;> cases h
    rfl
  | cache key =>
    rcases describe_cache key keys unit line with ⟨_, _, _, he⟩ | ⟨_, he⟩ <;> cases h.symm.trans he

/-! ## Lines and demands -/

/-- The slots of the keys seen so far are filled, and no others. -/
def Keyed (keys : List Bytes) (slots : Slots) : Prop :=
  ∀ i, (slots.get? i).isSome = decide (i < keys.length)

theorem keyed_nil : Keyed [] {} := fun _ => rfl

theorem Keyed.congr {keys : List Bytes} {slots filled : Slots} (hk : Keyed keys slots)
    (h : slots.Alike filled) : Keyed keys filled := fun i => (h i).symm.trans (hk i)

/-- A parcel whose lines are as many as its unit takes. -/
structure Fair (p : Parcel) (slots : Slots) : Prop where
  terminated : Terminated p.payload
  count : countLf p.payload = p.descriptor.expected slots

theorem fair_describeDocument (document : Bytes) (slots : Slots) :
    Fair (describeDocument document) slots := by
  refine ⟨?_, rfl⟩
  unfold describeDocument
  simp only
  split_ifs with h
  · exact .inr (by simpa using h)
  · exact terminated_concat document

theorem fair_foldParcel (options : WrapOptions) {text : List Char} (ht : '\n' ∉ text)
    (slots : Slots) : Fair (foldParcel options text) slots := by
  have hp : ∀ p ∈ wrap options text, lf ∉ Utf8.encode p.text := fun p hp hm =>
    ht (mem_of_mem_wrap hp (List.mem_append_left _ (Utf8.lf_mem_encode hm)))
  unfold foldParcel
  simp only
  generalize wrap options text = pieces at hp
  constructor
  · induction pieces with
    | nil => exact terminated_nil
    | cons p pieces ih =>
      exact (terminated_concat _).append (ih fun q hq => hp q (List.mem_cons_of_mem p hq))
  · simp only [Descriptor.expected, List.length_map]
    induction pieces with
    | nil => rfl
    | cons p pieces ih =>
      have hl := countLf_line (hp p List.mem_cons_self) []
      rw [List.flatMap_cons, countLf_append, hl, List.length_cons,
        ih fun q hq => hp q (List.mem_cons_of_mem p hq)]
      simp [countLf]
      omega

theorem fair_repeat {slot : Nat} {slots : Slots} (h : (slots.get? slot).isSome = true) :
    Fair ⟨.cached slot, []⟩ slots := by
  refine ⟨terminated_nil, ?_⟩
  simp [Descriptor.expected, h, countLf]

theorem fair_miss {slot : Nat} {slots : Slots} {line : Bytes} (hl : lf ∉ line)
    (h : (slots.get? slot).isSome = false) : Fair ⟨.cached slot, line ++ [lf]⟩ slots := by
  refine ⟨terminated_concat line, ?_⟩
  have hc := countLf_line hl []
  simp only [Descriptor.expected, h]
  rw [hc]
  rfl

theorem Keyed.fill_old {keys : List Bytes} {slots : Slots} {slot : Nat} (hk : Keyed keys slots)
    (h : (slots.get? slot).isSome = true) : Keyed keys (slots.fill slot []) := by
  intro i
  simp only [Slots.fill, h, if_true]
  exact hk i

theorem Keyed.fill_new {keys : List Bytes} {slots : Slots} (hk : Keyed keys slots) (key : Bytes) :
    Keyed (keys ++ [key]) (slots.fill keys.length []) := by
  intro i
  rw [List.length_append, List.length_singleton, Slots.get?_fill]
  split_ifs with e
  · rw [← e]
    simp
  · rw [hk i]
    exact decide_eq_decide.mpr (by omega)

/-- What a source makes of a line asks for as many answers as it sends lines. -/
theorem describe_fair {kind : Kind} {keys keys' : List Bytes} {unit : Nat} {line : Bytes}
    {p : Parcel} {slots : Slots} (h : describe kind keys unit line = (.ok p, keys'))
    (hl : lf ∉ line) (hk : Keyed keys slots) :
    Fair p slots ∧ Keyed keys' (p.descriptor.assemble [] slots).2 := by
  cases kind with
  | document =>
    obtain ⟨document, -, rfl, rfl⟩ := of_describe_document h
    exact ⟨fair_describeDocument document slots, hk⟩
  | fold options =>
    obtain ⟨text, hd, rfl, rfl⟩ := of_describe_fold h
    exact ⟨fair_foldParcel options (Utf8.newline_not_mem_decode hd hl) slots, hk⟩
  | cache key =>
    rcases describe_cache key keys unit line with ⟨slot, hlt, -, he⟩ | ⟨-, he⟩
    · cases h.symm.trans he
      have hf : (slots.get? slot).isSome = true := by
        rw [hk slot]
        exact decide_eq_true hlt
      exact ⟨fair_repeat hf, hk.fill_old hf⟩
    · cases h.symm.trans he
      have hf : (slots.get? keys.length).isSome = false := by
        rw [hk keys.length]
        exact decide_eq_false (Nat.lt_irrefl _)
      exact ⟨fair_miss hl hf, hk.fill_new (key.of line)⟩

theorem next_fair {s s' : Source} {p : Parcel} {slots : Slots}
    (h : s.next = some (.ok p, s')) (hk : Keyed s.keys slots) :
    Fair p slots ∧ Keyed s'.keys (p.descriptor.assemble [] slots).2 := by
  obtain ⟨line, hl, -, hd, -⟩ := next_eq_some h
  exact describe_fair hd hl hk

/-- **Every unit asks for as many answers as it sends lines** once the units before it are put
together, of whatever answers. -/
theorem fair_units {s : Source} {slots : Slots} (hk : Keyed s.keys slots) (answers : List Bytes)
    {i : Nat} {p : Parcel} (h : s.units[i]? = some p) :
    Fair p (Descriptor.assembleAll (descriptors (s.units.take i)) answers slots).2 := by
  induction s using units.induct generalizing slots answers i with
  | case1 s q s' hn ih =>
    rw [units_of_ok hn] at h ⊢
    obtain ⟨hfair, hk'⟩ := next_fair hn hk
    cases i with
    | zero =>
      cases h
      exact hfair
    | succ i =>
      rw [List.take_succ_cons]
      exact ih (hk'.congr (Descriptor.assemble_congr (.refl slots) q.descriptor [] _)) _ h
  | case2 s e s' hn ih =>
    obtain ⟨line, -, -, hd, -⟩ := next_eq_some hn
    rw [units_of_error hn] at h ⊢
    exact ih (describe_error hd ▸ hk) answers h
  | case3 s hn =>
    rw [units_of_none hn] at h
    cases h

theorem sum_demands_units {s : Source} {slots : Slots} (hk : Keyed s.keys slots) (i : Nat) :
    Terminated (payloads (s.units.take i)) ∧
      (Descriptor.demands (descriptors (s.units.take i)) slots).sum =
        countLf (payloads (s.units.take i)) := by
  induction i with
  | zero => exact ⟨terminated_nil, rfl⟩
  | succ i ih =>
    obtain ⟨hterm, hsum⟩ := ih
    rw [List.take_add_one]
    cases hp : s.units[i]? with
    | none =>
      rw [Option.toList_none, List.append_nil]
      exact ⟨hterm, hsum⟩
    | some p =>
      have hfair := fair_units hk [] hp
      rw [Option.toList_some, payloads_append, payloads_cons, payloads_nil, List.append_nil]
      refine ⟨hterm.append hfair.terminated, ?_⟩
      rw [descriptors, List.map_append, Descriptor.demands_append _ _ [], List.sum_append, hsum,
        countLf_append, hfair.count]
      simp [Descriptor.demands]

/-- **The lines of any number of parcels are whole, and as many as their units take.** -/
theorem sum_demands {done rest : List Parcel} {s : Source} {slots : Slots}
    (h : s.parcels = done ++ rest) (hk : Keyed s.keys slots) :
    Terminated (payloads done) ∧
      (Descriptor.demands (descriptors done) slots).sum = countLf (payloads done) := by
  have hdone : done <+: s.units := (List.prefix_append done rest).trans (h ▸ parcels_prefix_units s)
  rw [List.prefix_iff_eq_take.mp hdone]
  exact sum_demands_units hk done.length

/-! ## Sources that send every line -/

/-- There is no cache: every line is sent. -/
def Kind.Sends : Kind → Prop
  | .document | .fold _ => True
  | .cache _ => False

theorem payload_describeDocument_ne_nil (document : Bytes) :
    (describeDocument document).payload ≠ [] := by
  unfold describeDocument
  simp only
  split_ifs with h
  · rintro rfl
    cases h
  · exact List.append_ne_nil_of_right_ne_nil document (List.cons_ne_nil lf [])

theorem payload_foldParcel_ne_nil (options : WrapOptions) (text : List Char) :
    (foldParcel options text).payload ≠ [] := by
  obtain ⟨piece, hp⟩ := List.exists_mem_of_ne_nil _ (wrap_ne_nil options text)
  intro hnil
  have hpiece := List.flatMap_eq_nil_iff.mp hnil piece hp
  exact List.append_ne_nil_of_right_ne_nil _ (List.cons_ne_nil lf []) hpiece

theorem describe_ne_nil {kind : Kind} {keys keys' : List Bytes} {unit : Nat} {line : Bytes}
    {p : Parcel} (hk : kind.Sends) (h : describe kind keys unit line = (.ok p, keys')) :
    p.payload ≠ [] := by
  cases kind with
  | document =>
    obtain ⟨document, -, rfl, -⟩ := of_describe_document h
    exact payload_describeDocument_ne_nil document
  | fold options =>
    obtain ⟨text, -, rfl, -⟩ := of_describe_fold h
    exact payload_foldParcel_ne_nil options text
  | cache key => exact hk.elim

theorem payload_ne_nil_of_mem_units {s : Source} (hk : s.kind.Sends) :
    ∀ p ∈ s.units, p.payload ≠ [] := by
  intro p hp
  obtain ⟨keys, keys', unit, line, -, hd⟩ := of_mem_units hp
  exact describe_ne_nil hk hd

theorem payload_ne_nil {s : Source} (hk : s.kind.Sends) : ∀ p ∈ s.parcels, p.payload ≠ [] :=
  fun p hp => payload_ne_nil_of_mem_units hk p ((parcels_prefix_units s).subset hp)

end Source

end Coprocess
