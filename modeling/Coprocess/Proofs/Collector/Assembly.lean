import Coprocess.Descriptor
import Coprocess.Sink
import Mathlib.Algebra.Ring.Nat
import Mathlib.Data.List.Basic

/-!
# Units from consecutive lines

* `Descriptor.demands`: how many lines each of some units takes in turn;
* `Descriptor.assembleAll`: the units that descriptors make of lines, each of the next that it
  takes;
* **`Descriptor.assembleAll_concat`**: one more unit is made of the lines that are left;
* `Sink.render`, `Sink.Holds`, `Sink.writeUnit_cases`: what a sink writes for a unit.
-/

namespace Coprocess

/-! ## Slots -/

namespace Slots

/-- The same slots are filled, with whatever answers. -/
def Alike (s t : Slots) : Prop := ∀ i, (s.get? i).isSome = (t.get? i).isSome

theorem Alike.refl (s : Slots) : s.Alike s := fun _ => rfl

theorem Alike.fill {s t : Slots} (h : s.Alike t) (i : Nat) (a b : Bytes) :
    (s.fill i a).Alike (t.fill i b) := by
  intro j
  rw [get?_fill, get?_fill]
  split_ifs
  · rfl
  · exact h j

end Slots

/-! ## Demands -/

namespace Descriptor

/-- How many lines each unit takes once those before it are put together. The answers that these got
do not matter, only which slots they filled. -/
def demands : List Descriptor → Slots → List Nat
  | [], _ => []
  | d :: ds, slots => d.expected slots :: demands ds (d.assemble [] slots).2

/-- The units that descriptors make of lines, each of the next lines that it takes, and the slots
afterwards. -/
def assembleAll : List Descriptor → List Bytes → Slots → List Bytes × Slots
  | [], _, slots => ([], slots)
  | d :: ds, lines, slots =>
    let (unit, filled) := d.assemble (lines.take (d.expected slots)) slots
    let (units, filled) := assembleAll ds (lines.drop (d.expected slots)) filled
    (unit :: units, filled)

theorem length_demands (ds : List Descriptor) (slots : Slots) :
    (demands ds slots).length = ds.length := by
  induction ds generalizing slots with
  | nil => rfl
  | cons d ds ih => rw [demands, List.length_cons, List.length_cons, ih]

theorem length_assembleAll (ds : List Descriptor) (lines : List Bytes) (slots : Slots) :
    (assembleAll ds lines slots).1.length = ds.length := by
  induction ds generalizing lines slots with
  | nil => rfl
  | cons d ds ih => exact congrArg (· + 1) (ih _ _)

theorem expected_congr {s t : Slots} (h : s.Alike t) (d : Descriptor) :
    d.expected s = d.expected t := by
  cases d with
  | cached slot => simp only [expected, h slot]
  | _ => rfl

theorem assemble_congr {s t : Slots} (h : s.Alike t) (d : Descriptor) (l m : List Bytes) :
    (d.assemble l s).2.Alike (d.assemble m t).2 := by
  cases d with
  | cached slot => exact h.fill slot _ _
  | _ => exact h

theorem demands_congr (ds : List Descriptor) {s t : Slots} (h : s.Alike t) :
    demands ds s = demands ds t := by
  induction ds generalizing s t with
  | nil => rfl
  | cons d ds ih => rw [demands, demands, expected_congr h, ih (assemble_congr h d [] [])]

theorem demands_append (ds es : List Descriptor) (lines : List Bytes) (slots : Slots) :
    demands (ds ++ es) slots = demands ds slots ++ demands es (assembleAll ds lines slots).2 := by
  induction ds generalizing lines slots with
  | nil => rfl
  | cons d ds ih =>
    have h := assemble_congr (Slots.Alike.refl slots) d [] (lines.take (d.expected slots))
    simp only [List.cons_append, demands, assembleAll]
    rw [demands_congr (ds ++ es) h, demands_congr ds h, ih (lines.drop (d.expected slots))]

theorem demands_take (ds : List Descriptor) (n : Nat) (slots : Slots) :
    demands (ds.take n) slots = (demands ds slots).take n := by
  induction ds generalizing n slots with
  | nil => simp [demands]
  | cons d ds ih =>
    cases n with
    | zero => rfl
    | succ n => rw [List.take_succ_cons, demands, ih, demands, List.take_succ_cons]

theorem assembleAll_append (ds es : List Descriptor) (lines : List Bytes) (slots : Slots) :
    assembleAll (ds ++ es) lines slots =
      ((assembleAll ds lines slots).1 ++
        (assembleAll es (lines.drop (demands ds slots).sum) (assembleAll ds lines slots).2).1,
      (assembleAll es (lines.drop (demands ds slots).sum) (assembleAll ds lines slots).2).2) := by
  induction ds generalizing lines slots with
  | nil => rfl
  | cons d ds ih =>
    have hd := demands_congr ds (assemble_congr (Slots.Alike.refl slots) d []
      (lines.take (d.expected slots)))
    simp only [List.cons_append, assembleAll, demands, List.sum_cons]
    rw [ih, hd, List.drop_drop]

theorem assembleAll_append_lines {ds : List Descriptor} {lines : List Bytes} {slots : Slots}
    (h : (demands ds slots).sum ≤ lines.length) (more : List Bytes) :
    assembleAll ds (lines ++ more) slots = assembleAll ds lines slots := by
  induction ds generalizing lines slots with
  | nil => rfl
  | cons d ds ih =>
    have hd := demands_congr ds (assemble_congr (Slots.Alike.refl slots) d []
      (lines.take (d.expected slots)))
    rw [demands, List.sum_cons, hd] at h
    have hr : (demands ds (d.assemble (lines.take (d.expected slots)) slots).2).sum ≤
        (lines.drop (d.expected slots)).length := by
      rw [List.length_drop]
      omega
    simp only [assembleAll]
    rw [List.take_append_of_le_length (by omega), List.drop_append_of_le_length (by omega), ih hr]

/-- **One more unit is made of the lines that those before it have left.** -/
theorem assembleAll_concat {ds : List Descriptor} {lines : List Bytes} {slots : Slots}
    (h : (demands ds slots).sum = lines.length) (d : Descriptor) {block : List Bytes}
    (hb : block.length = d.expected (assembleAll ds lines slots).2) :
    assembleAll (ds ++ [d]) (lines ++ block) slots =
      ((assembleAll ds lines slots).1 ++ [(d.assemble block (assembleAll ds lines slots).2).1],
        (d.assemble block (assembleAll ds lines slots).2).2) := by
  have hl := assembleAll_append_lines (Nat.le_of_eq h) block
  rw [assembleAll_append, hl, h, List.drop_left]
  simp only [assembleAll]
  rw [← hb, List.take_length]

theorem sum_demands_concat (ds : List Descriptor) (lines : List Bytes) (slots : Slots)
    (d : Descriptor) :
    (demands (ds ++ [d]) slots).sum =
      (demands ds slots).sum + d.expected (assembleAll ds lines slots).2 := by
  rw [demands_append ds [d] lines]
  simp [demands]

end Descriptor

/-! ## Sinks -/

namespace Sink

/-- What is written for a unit. -/
def render (format : Format) (unit : Bytes) : Bytes :=
  match format with
  | .line => unit ++ [lf]
  | .document => Base64.encode unit ++ [lf]

/-- A sink that has written some units since it was `s₀`. -/
def Holds (s₀ : Sink) (units : List Bytes) (s : Sink) : Prop :=
  ∃ pieces : List Bytes, s = { s₀ with outlet := { s₀.outlet with pieces } } ∧
    pieces.reverse.flatten = s₀.outlet.written ++ (units.map (render s₀.format)).flatten

theorem holds_nil (s : Sink) : s.Holds [] s := ⟨s.outlet.pieces, rfl, by simp [Outlet.written]⟩

theorem Holds.written {s₀ s : Sink} {units : List Bytes} (h : s₀.Holds units s) :
    s.outlet.written = s₀.outlet.written ++ (units.map (render s₀.format)).flatten := by
  obtain ⟨pieces, rfl, hp⟩ := h
  exact hp

theorem Holds.outlet {s₀ s : Sink} {units : List Bytes} (h : s₀.Holds units s) :
    s.outlet.limit = s₀.outlet.limit ∧ s.outlet.flushFails = s₀.outlet.flushFails ∧
      s.outlet.flushes = s₀.outlet.flushes := by
  obtain ⟨pieces, rfl, -⟩ := h
  exact ⟨rfl, rfl, rfl⟩

theorem Holds.append {s₀ s t : Sink} {units more : List Bytes} (h : s₀.Holds units s)
    (hm : s.Holds more t) : s₀.Holds (units ++ more) t := by
  obtain ⟨pieces, rfl, hp⟩ := h
  obtain ⟨all, rfl, ha⟩ := hm
  refine ⟨all, rfl, ?_⟩
  rw [ha, Outlet.written, hp]
  simp

theorem write_cases (o : Outlet) (data : Bytes) :
    (∃ pieces : List Bytes, o.write data = (none, { o with pieces }) ∧
        pieces.reverse.flatten = o.written ++ data) ∨
      (o.write data = (some (.os .pipe), o) ∧ o.limit.isSome = true) := by
  unfold Outlet.write
  split_ifs with he hl
  · refine .inl ⟨o.pieces, rfl, ?_⟩
    rw [List.isEmpty_iff.mp he, List.append_nil]
    rfl
  · refine .inr ⟨rfl, ?_⟩
    rw [Option.any_eq_true] at hl
    obtain ⟨n, hn, -⟩ := hl
    rw [hn]
    rfl
  · exact .inl ⟨_, rfl, by simp [Outlet.written]⟩

/-- **A unit is written as a whole**, or writing fails on a sink with a limit. -/
theorem writeUnit_cases (s : Sink) (unit : Bytes) :
    (∃ t, s.writeUnit unit = (none, t) ∧ s.Holds [unit] t) ∨
      (∃ t, s.writeUnit unit = (some (.io (.os .pipe)), t) ∧ s.outlet.limit.isSome = true) := by
  obtain ⟨format, outlet⟩ := s
  cases format with
  | document =>
    rcases write_cases outlet (Base64.encode unit ++ [lf]) with ⟨pieces, hw, hp⟩ | ⟨hw, hl⟩
    · refine .inl ⟨⟨.document, { outlet with pieces }⟩, ?_, pieces, rfl, ?_⟩
      · simp [writeUnit, hw]
      · simp [hp, render]
    · exact .inr ⟨⟨.document, outlet⟩, by simp [writeUnit, hw], hl⟩
  | line =>
    rcases write_cases outlet unit with ⟨pieces, hw, hp⟩ | ⟨hw, hl⟩
    · rcases write_cases { outlet with pieces } [lf] with ⟨more, hw', hm⟩ | ⟨hw', hl⟩
      · refine .inl ⟨⟨.line, { outlet with pieces := more }⟩, ?_, more, rfl, ?_⟩
        · simp [writeUnit, hw, hw']
        · rw [hm, Outlet.written, hp]
          simp [render]
      · exact .inr ⟨⟨.line, { outlet with pieces }⟩, by simp [writeUnit, hw, hw'], hl⟩
    · exact .inr ⟨⟨.line, outlet⟩, by simp [writeUnit, hw], hl⟩

end Sink

end Coprocess
