import Coprocess.Proofs.KeyedLists
import Coprocess.Proofs.Text.Characters
import Coprocess.Proofs.Text.Lines
import Coprocess.Proofs.Text.Numbers
import Coprocess.Record
import Mathlib.Algebra.Ring.Nat
import Mathlib.Data.List.Forall2
import Mathlib.Tactic.SplitIfs

/-!
# The records of a stream

The grammar of records is stated beside the reader.

* `Spells`: a text and its line break;
* `GivesLength`, `Announces`: which headers give the length, and how many may;
* `Opening`, `WellFormed`: the version line and the headers, and a record as a whole;
* `Bounded`: no record of a stream announces more bytes than can be held;
* **`readWarc_append`**, **`readWarc_outcome`**: the reader finds a record where there is one, and
  no other;
* `bounded_of_digits`: a stream with few digits is bounded;
* **`RecordReader.reads_longest`**: the longest sequence of records is read.
-/

namespace Coprocess

/-! ## Supplies -/

namespace Supply

/-- A supply with `part` in front. -/
def prepend (part : Bytes) (s : Supply) : Supply := { s with bytes := part ++ s.bytes }

/-- A read after the bytes of the supply fails with `e`. -/
def FailsWith (s : Supply) (e : IoError) : Prop := s.fault = some e ∨ s.lasting = some e

@[simp] theorem prepend_bytes (part : Bytes) (s : Supply) :
    (s.prepend part).bytes = part ++ s.bytes := rfl

theorem prepend_append (part more : Bytes) (s : Supply) :
    s.prepend (part ++ more) = (s.prepend more).prepend part := by
  simp [prepend]

theorem of_prepend_pure {bytes part : Bytes} {rest : Supply}
    (h : ({ bytes } : Supply) = rest.prepend part) :
    ∃ more, rest = { bytes := more } ∧ bytes = part ++ more := by
  obtain ⟨more, fault, lasting⟩ := rest
  cases h
  exact ⟨more, rfl, rfl⟩

theorem not_failsWith_pure (bytes : Bytes) (e : IoError) :
    ¬ FailsWith { bytes } e := by simp [FailsWith]

theorem FailsWith.prepend {s : Supply} {e : IoError} (h : s.FailsWith e) (part : Bytes) :
    (s.prepend part).FailsWith e := h

theorem exhaust_cases (s : Supply) :
    s = { bytes := s.bytes } ∧ s.exhaust = (.ok (), { bytes := [] }) ∨
      ∃ e t, s.FailsWith e ∧ s.exhaust = (.error e, t) := by
  obtain ⟨bytes, fault, lasting⟩ := s
  cases fault with
  | some e => exact .inr ⟨e, _, .inl rfl, rfl⟩
  | none =>
    cases lasting with
    | some e => exact .inr ⟨e, _, .inr rfl, rfl⟩
    | none => exact .inl ⟨rfl, rfl⟩

theorem cutLine_prepend {l : Bytes} (hl : lf ∉ l) (s : Supply) :
    (s.prepend (l ++ [lf])).cutLine = (.ok (l ++ [lf]), s) := by
  simp [cutLine, prepend, cutLine_line hl]

theorem cutLine_last {l : Bytes} (hl : lf ∉ l) :
    cutLine { bytes := l } = (.ok l, { bytes := [] }) := by
  have hlast : l.getLast? ≠ some lf := fun h => hl (List.mem_of_getLast? h)
  simp [cutLine, cutLine_rest hl, hlast, exhaust]

theorem cutLine_cases (s : Supply) :
    (∃ l t, lf ∉ l ∧ s = t.prepend (l ++ [lf]) ∧ s.cutLine = (.ok (l ++ [lf]), t)) ∨
      (lf ∉ s.bytes ∧ s = { bytes := s.bytes } ∧ s.cutLine = (.ok s.bytes, { bytes := [] })) ∨
      ∃ e t, s.FailsWith e ∧ s.cutLine = (.error e, t) := by
  have hrest (hl : lf ∉ s.bytes) :
      (lf ∉ s.bytes ∧ s = { bytes := s.bytes } ∧ s.cutLine = (.ok s.bytes, { bytes := [] })) ∨
        ∃ e t, s.FailsWith e ∧ s.cutLine = (.error e, t) := by
    have hlast : ¬ s.bytes.getLast? = some lf := fun he => hl (List.mem_of_getLast? he)
    rcases s.exhaust_cases with ⟨hs, -⟩ | ⟨e, t, he, ht⟩
    · refine .inl ⟨hl, hs, ?_⟩
      rw [hs]
      exact cutLine_last hl
    · refine .inr ⟨e, t, he, ?_⟩
      simp only [cutLine, cutLine_rest hl]
      rw [if_neg hlast, ht]
  obtain ⟨bytes, fault, lasting⟩ := s
  induction bytes using line_induction with
  | nil => exact .inr (hrest List.not_mem_nil)
  | rest l hl => exact .inr (hrest hl)
  | line l rest hl =>
    have hs : (⟨l ++ lf :: rest, fault, lasting⟩ : Supply) =
        prepend (l ++ [lf]) ⟨rest, fault, lasting⟩ := by simp [prepend]
    exact .inl ⟨l, ⟨rest, fault, lasting⟩, hl, hs, hs ▸ cutLine_prepend hl _⟩

theorem take_cases (s : Supply) (n : Nat) :
    (∃ part t, part.length = n ∧ s = t.prepend part ∧ s.take n = (.ok (some part), t)) ∨
      (s.bytes.length < n ∧ s = { bytes := s.bytes } ∧ s.take n = (.ok none, { bytes := [] })) ∨
      ∃ e t, s.bytes.length < n ∧ s.FailsWith e ∧ s.exhaust = (.error e, t) ∧
        s.take n = (.error e, t) := by
  by_cases hlong : n ≤ s.bytes.length
  · refine .inl ⟨s.bytes.take n, { s with bytes := s.bytes.drop n }, List.length_take_of_le hlong,
      ?_, ?_⟩
    · simp [prepend]
    · rw [take, if_pos (List.length_take_of_le hlong)]
  · have hshort : s.bytes.length < n := Nat.lt_of_not_le hlong
    have hne : (s.bytes.take n).length ≠ n := by
      rw [List.length_take]
      omega
    rcases s.exhaust_cases with ⟨hs, ht⟩ | ⟨e, t, he, ht⟩
    · exact .inr (.inl ⟨hshort, hs, by rw [take, if_neg hne, ht]⟩)
    · exact .inr (.inr ⟨e, t, hshort, he, ht, by rw [take, if_neg hne, ht]⟩)

end Supply

namespace Record

/-! ## The grammar -/

/-- A text and its line break, which is a line feed, or a carriage return and a line feed. -/
def Spells (raw text : Bytes) : Prop :=
  lf ∉ text ∧ (raw = text ++ [cr, lf] ∨ raw = text ++ [lf] ∧ text.getLast? ≠ some cr)

instance (raw text : Bytes) : Decidable (Spells raw text) :=
  inferInstanceAs (Decidable (_ ∧ (_ ∨ _ ∧ _)))

/-- A header with the name of the length in upper or lower case, and the value after it. -/
def GivesLength (header value : Bytes) : Prop :=
  ∃ name : Bytes, header = name ++ value ∧ name.map lower = lengthName

/-- Exactly one header gives the length, and its value stands for `n`. -/
def Announces (headers : List Bytes) (n : Nat) : Prop :=
  ∃ before header after value, headers = before ++ header :: after ∧ GivesLength header value ∧
    parseLength value = some n ∧ ∀ other ∈ before ++ after, ∀ value, ¬ GivesLength other value

/-- The version line and headers that are not empty, with content of `n` bytes to follow. -/
def Opening (head : Bytes) (n : Nat) : Prop :=
  ∃ version raws headers, head = version ++ List.flatten raws ∧ Spells version versionLine ∧
    List.Forall₂ Spells raws headers ∧ [] ∉ headers ∧ Announces headers n

/-- A record: its opening, an empty line, as much content as announced, and two line breaks. -/
def WellFormed (record : Bytes) : Prop :=
  ∃ head blank content n, record = head ++ blank ++ content ++ recordEnd ∧ Opening head n ∧
    Spells blank [] ∧ content.length = n

/-- Headers end with an empty line, or with a carriage return that is the last of the input. -/
def Closes (blank rest : Bytes) : Prop := Spells blank [] ∨ blank = [cr] ∧ rest = []

/-- Headers end with an empty line, or with a carriage return after which the supply is at its
end. -/
def Ends (blank : Bytes) (rest : Supply) : Prop :=
  Spells blank [] ∨ blank = [cr] ∧ rest = { bytes := [] }

/-- A supply starts with `head`, that is an opening and the end of its headers. It announces `n`
bytes of content, and `rest` is the supply that is left to give them. -/
def Opens (s : Supply) (head : Bytes) (n : Nat) (rest : Supply) : Prop :=
  s = rest.prepend head ∧ ∃ opening blank, head = opening ++ blank ∧ Opening opening n ∧
    Ends blank rest

/-- What the next record announces can be held. -/
def Holdable (s : Bytes) : Prop :=
  ∀ head blank n rest, s = head ++ blank ++ rest → Opening head n → Closes blank rest →
    (head ++ blank).length + n + recordEnd.length < 2 ^ 63

/-- Whatever a record announces after records can be held. -/
def Bounded (s : Bytes) : Prop :=
  ∀ rs rest, s = List.flatten rs ++ rest → (∀ r ∈ rs, WellFormed r) → Holdable rest

/-! ## Lines -/

theorem headerLine_line (l : Bytes) :
    headerLine (l ++ [lf]) = if l.getLast? = some cr then l.dropLast else l := by
  simp [headerLine, chomp]

theorem spells_headerLine {l : Bytes} (hl : lf ∉ l) :
    Spells (l ++ [lf]) (headerLine (l ++ [lf])) := by
  rw [headerLine_line]
  split_ifs with h
  · obtain ⟨text, rfl⟩ := List.getLast?_eq_some_iff.mp h
    rw [List.dropLast_concat]
    refine ⟨fun hm => hl (List.mem_append_left _ hm), .inl ?_⟩
    simp
  · exact ⟨hl, .inr ⟨rfl, h⟩⟩

theorem Spells.line {raw text : Bytes} (h : Spells raw text) :
    ∃ l, lf ∉ l ∧ raw = l ++ [lf] ∧ headerLine raw = text := by
  obtain ⟨ht, rfl | ⟨rfl, hcr⟩⟩ := h
  · refine ⟨text ++ [cr], ?_, by simp, ?_⟩
    · simp [ht, show lf ≠ cr by decide]
    · rw [show text ++ [cr, lf] = (text ++ [cr]) ++ [lf] by simp, headerLine_line]
      simp
  · exact ⟨text, ht, rfl, by rw [headerLine_line, if_neg hcr]⟩

theorem Spells.ne_nil {raw text : Bytes} (h : Spells raw text) : raw ≠ [] := by
  obtain ⟨l, -, rfl, -⟩ := h.line
  simp

theorem cutLine_spells {raw text : Bytes} (h : Spells raw text) (s : Supply) :
    (s.prepend raw).cutLine = (.ok raw, s) := by
  obtain ⟨l, hl, rfl, -⟩ := h.line
  exact Supply.cutLine_prepend hl s

theorem headerLine_eq_nil {l : Bytes} (hl : lf ∉ l) (hne : l ≠ []) (h : headerLine l = []) :
    l = [cr] := by
  rw [headerLine, chomp_rest hl] at h
  split_ifs at h with hcr
  · obtain ⟨text, rfl⟩ := List.getLast?_eq_some_iff.mp hcr
    rw [List.dropLast_concat] at h
    rw [h, List.nil_append]
  · exact absurd h hne

section

variable {blank : Bytes} {rest : Supply}

theorem Ends.ne_nil (h : Ends blank rest) : blank ≠ [] := by
  rcases h with h | ⟨rfl, -⟩
  · exact h.ne_nil
  · simp

theorem Ends.headerLine (h : Ends blank rest) : headerLine blank = [] := by
  rcases h with h | ⟨rfl, -⟩
  · obtain ⟨-, -, -, hblank⟩ := h.line
    exact hblank
  · decide

theorem Ends.cutLine (h : Ends blank rest) : (rest.prepend blank).cutLine = (.ok blank, rest) := by
  rcases h with h | ⟨rfl, rfl⟩
  · exact cutLine_spells h rest
  · exact Supply.cutLine_last (by decide)

theorem Ends.closes (h : Ends blank rest) : Closes blank rest.bytes := by
  rcases h with h | ⟨rfl, rfl⟩
  · exact .inl h
  · exact .inr ⟨rfl, rfl⟩

end

/-! ## Headers -/

theorem lengthValue?_eq_some_iff {header value : Bytes} :
    lengthValue? header = some value ↔ GivesLength header value := by
  unfold lengthValue? GivesLength
  constructor
  · intro h
    split_ifs at h with hn
    obtain rfl := Option.some.inj h
    exact ⟨_, (List.take_append_drop _ _).symm, hn⟩
  · rintro ⟨name, rfl, hn⟩
    have hlen : lengthName.length = name.length := by rw [← hn, List.length_map]
    rw [hlen, List.take_left, List.drop_left, if_pos hn]

theorem announces_iff {headers : List Bytes} {n : Nat} :
    Announces headers n ↔ (headers.filterMap lengthValue?).map parseLength = [some n] := by
  have hno (l : List Bytes) : (∀ other ∈ l, ∀ value, ¬ GivesLength other value) ↔
      ∀ other ∈ l, lengthValue? other = none := by
    simp only [← lengthValue?_eq_some_iff, Option.eq_none_iff_forall_ne_some, ne_eq]
  constructor
  · rintro ⟨before, header, after, value, rfl, hv, hn, ho⟩
    rw [hno] at ho
    have hb := List.filterMap_eq_nil_iff.mpr fun x hx => ho x (List.mem_append_left after hx)
    have ha := List.filterMap_eq_nil_iff.mpr fun x hx => ho x (List.mem_append_right before hx)
    rw [List.filterMap_append, hb, List.filterMap_cons_some (lengthValue?_eq_some_iff.mpr hv), ha]
    simp [hn]
  · intro h
    obtain ⟨value, rest, hf, hn, hr⟩ := List.map_eq_cons_iff.mp h
    obtain rfl := List.map_eq_nil_iff.mp hr
    obtain ⟨before, header, after, rfl, hb, hv, ha⟩ := List.filterMap_eq_cons_iff.mp hf
    rw [List.filterMap_eq_nil_iff] at ha
    refine ⟨before, header, after, value, rfl, lengthValue?_eq_some_iff.mp hv, hn, ?_⟩
    rw [hno]
    intro other ho
    rcases List.mem_append.mp ho with ho | ho
    · exact hb other ho
    · exact ha other ho

/-- Headers after which, with the length that was found before them, `n` is the only one. -/
def Heading (length : Option Nat) (block : Bytes) (n : Nat) : Prop :=
  ∃ raws headers, block = List.flatten raws ∧ List.Forall₂ Spells raws headers ∧ [] ∉ headers ∧
    length.toList.map some ++ (headers.filterMap lengthValue?).map parseLength = [some n]

theorem opening_iff {head : Bytes} {n : Nat} :
    Opening head n ↔
      ∃ version block, head = version ++ block ∧ Spells version versionLine ∧
        Heading none block n := by
  simp only [Opening, Heading, announces_iff, Option.toList_none, List.map_nil, List.nil_append]
  constructor
  · rintro ⟨version, raws, headers, rfl, hv, h⟩
    exact ⟨version, _, rfl, hv, raws, headers, rfl, h⟩
  · rintro ⟨version, block, rfl, hv, raws, headers, rfl, h⟩
    exact ⟨version, raws, headers, rfl, hv, h⟩

theorem heading_nil (n : Nat) : Heading (some n) [] n := ⟨[], [], rfl, .nil, by simp, rfl⟩

section

variable {raw text value block : Bytes} {found : Option Nat} {n m : Nat}

theorem Heading.other (h : Heading found block n) (hs : Spells raw text) (hne : text ≠ [])
    (hv : lengthValue? text = none) : Heading found (raw ++ block) n := by
  obtain ⟨raws, headers, rfl, hall, hnil, hn⟩ := h
  refine ⟨raw :: raws, text :: headers, rfl, .cons hs hall, ?_, ?_⟩
  · simp [hnil, hne.symm]
  · rwa [List.filterMap_cons_none hv]

theorem Heading.length (h : Heading (some m) block n) (hs : Spells raw text) (hne : text ≠ [])
    (hv : lengthValue? text = some value) (hm : parseLength value = some m) :
    Heading none (raw ++ block) n := by
  obtain ⟨raws, headers, rfl, hall, hnil, hn⟩ := h
  refine ⟨raw :: raws, text :: headers, rfl, .cons hs hall, ?_, ?_⟩
  · simp [hnil, hne.symm]
  · rw [List.filterMap_cons_some hv, List.map_cons, hm]
    exact hn

/-! ## Reading headers -/

theorem readHeaders_line {s t : Supply} (hc : s.cutLine = (.ok raw, t)) (hne : raw ≠ [])
    (unit fuel : Nat) (head : Array UInt8) :
    readHeaders unit (fuel + 1) head found s =
      if headerLine raw = [] then
        match found with
        | some n => .complete (head ++ raw) n t
        | none => .failed (.malformed unit .noLength) t
      else match lengthValue? (headerLine raw) with
        | none => readHeaders unit fuel (head ++ raw) found t
        | some value =>
          if found.isSome then .failed (.malformed unit .twoLengths) t
          else match parseLength value with
            | some n => readHeaders unit fuel (head ++ raw) (some n) t
            | none => .failed (.malformed unit (.badLength (headerLine raw))) t := by
  rw [readHeaders, hc]
  cases raw with
  | nil => exact absurd rfl hne
  | cons b raw => exact if_congr List.isEmpty_iff rfl rfl

theorem readHeaders_nil (unit fuel : Nat) (head : Array UInt8) (found : Option Nat) :
    ∃ t, readHeaders unit fuel head found { bytes := [] } =
      .failed (.malformed unit .endInHeader) t := by
  cases fuel with
  | zero => exact ⟨_, rfl⟩
  | succ fuel => exact ⟨_, by rw [readHeaders, Supply.cutLine_last (l := []) (by simp)]⟩

/-- **Headers are read up to the empty line.** -/
theorem readHeaders_heading {raws headers : List Bytes} (hall : List.Forall₂ Spells raws headers)
    (hnil : [] ∉ headers)
    (hn : found.toList.map some ++ (headers.filterMap lengthValue?).map parseLength = [some n])
    {blank : Bytes} {rest : Supply} (hb : Ends blank rest) (unit : Nat) {fuel : Nat}
    (hfuel : raws.length < fuel) (head : Array UInt8) :
    ∃ a, readHeaders unit fuel head found (rest.prepend (raws.flatten ++ blank)) =
        .complete a n rest ∧ a.toList = head.toList ++ (raws.flatten ++ blank) := by
  induction hall generalizing found fuel head with
  | nil =>
    obtain ⟨fuel, rfl⟩ := Nat.exists_eq_succ_of_ne_zero (Nat.ne_of_gt hfuel)
    rw [List.flatten_nil, List.nil_append, readHeaders_line hb.cutLine hb.ne_nil,
      if_pos hb.headerLine]
    cases found with
    | none => simp at hn
    | some m =>
      obtain rfl : m = n := by simpa using hn
      exact ⟨_, rfl, by simp⟩
  | @cons raw text raws headers hs hall ih =>
    obtain ⟨fuel, rfl⟩ := Nat.exists_eq_succ_of_ne_zero (Nat.ne_of_gt (Nat.zero_lt_of_lt hfuel))
    have hfuel : raws.length < fuel := Nat.lt_of_succ_lt_succ hfuel
    obtain ⟨hempty, hnil⟩ := not_or.mp (fun h => hnil (List.mem_cons.mpr h))
    obtain ⟨-, -, -, htext⟩ := hs.line
    rw [List.flatten_cons, List.append_assoc, Supply.prepend_append,
      readHeaders_line (cutLine_spells hs _) hs.ne_nil, htext, if_neg (Ne.symm hempty)]
    cases hv : lengthValue? text with
    | none =>
      rw [List.filterMap_cons_none hv] at hn
      obtain ⟨a, ha, hl⟩ := ih hnil hn hfuel (head ++ raw)
      exact ⟨a, ha, by simp [hl]⟩
    | some value =>
      rw [List.filterMap_cons_some hv] at hn
      cases found with
      | some m => simp at hn
      | none =>
        cases hm : parseLength value with
        | none => simp [hm] at hn
        | some m =>
          have hn : (some m).toList.map some ++ (headers.filterMap lengthValue?).map parseLength =
              [some n] := by simpa [hm] using hn
          obtain ⟨a, ha, hl⟩ := ih hnil hn hfuel (head ++ raw)
          exact ⟨a, by simpa [hm] using ha, by simp [hl]⟩

theorem readHeaders_line_cases {s t : Supply} (hc : s.cutLine = (.ok raw, t)) (hne : raw ≠ [])
    (unit fuel : Nat) (head : Array UInt8) (found : Option Nat) :
    (headerLine raw = [] ∧ ∃ n, found = some n ∧
        readHeaders unit (fuel + 1) head found s = .complete (head ++ raw) n t) ∨
      (headerLine raw ≠ [] ∧ lengthValue? (headerLine raw) = none ∧
        readHeaders unit (fuel + 1) head found s = readHeaders unit fuel (head ++ raw) found t) ∨
      (headerLine raw ≠ [] ∧ found = none ∧
        ∃ value m, lengthValue? (headerLine raw) = some value ∧ parseLength value = some m ∧
          readHeaders unit (fuel + 1) head found s =
            readHeaders unit fuel (head ++ raw) (some m) t) ∨
      ∃ cause t, readHeaders unit (fuel + 1) head found s = .failed (.malformed unit cause) t := by
  rw [readHeaders_line hc hne]
  by_cases htext : headerLine raw = []
  · rw [if_pos htext]
    cases found with
    | none => exact .inr (.inr (.inr ⟨.noLength, t, rfl⟩))
    | some n => exact .inl ⟨htext, n, rfl, rfl⟩
  · rw [if_neg htext]
    cases hv : lengthValue? (headerLine raw) with
    | none => exact .inr (.inl ⟨htext, rfl, rfl⟩)
    | some value =>
      cases found with
      | some m => exact .inr (.inr (.inr ⟨.twoLengths, t, rfl⟩))
      | none =>
        cases hm : parseLength value with
        | none => exact .inr (.inr (.inr ⟨.badLength (headerLine raw), t, by simp [hm]⟩))
        | some m => exact .inr (.inr (.inl ⟨htext, rfl, value, m, rfl, hm, by simp [hm]⟩))

theorem readHeaders_cases (unit fuel : Nat) (head : Array UInt8) (found : Option Nat)
    (s : Supply) :
    (∃ a n block blank rest, readHeaders unit fuel head found s = .complete a n rest ∧
        a.toList = head.toList ++ (block ++ blank) ∧ s = rest.prepend (block ++ blank) ∧
        Heading found block n ∧ Ends blank rest) ∨
      (∃ cause t, readHeaders unit fuel head found s = .failed (.malformed unit cause) t) ∨
      ∃ e t, s.FailsWith e ∧ readHeaders unit fuel head found s = .failed (.io e) t := by
  induction fuel generalizing head found s with
  | zero => exact .inr (.inl ⟨.endInHeader, s, rfl⟩)
  | succ fuel ih =>
    rcases s.cutLine_cases with ⟨l, t, hl, rfl, hc⟩ | ⟨hl, hs, hc⟩ | ⟨e, t, he, hc⟩
    · have hs := spells_headerLine hl
      generalize l ++ [lf] = raw at hs hc
      rcases readHeaders_line_cases hc hs.ne_nil unit fuel head found with
        ⟨htext, n, rfl, hr⟩ | ⟨htext, hv, hr⟩ | ⟨htext, rfl, value, m, hv, hm, hr⟩ | hf
      · rw [htext] at hs
        exact .inl ⟨_, n, [], raw, t, hr, by simp, rfl, heading_nil n, .inl hs⟩
      · rcases ih (head ++ raw) found t with
          ⟨a, n, block, blank, rest, ha, hl, rfl, hh, hb⟩ | ⟨cause, u, hf⟩ | ⟨e, u, he, hf⟩
        · exact .inl ⟨a, n, raw ++ block, blank, rest, hr.trans ha, by simp [hl],
            by rw [List.append_assoc, Supply.prepend_append raw], hh.other hs htext hv, hb⟩
        · exact .inr (.inl ⟨cause, u, hr.trans hf⟩)
        · exact .inr (.inr ⟨e, u, he.prepend raw, hr.trans hf⟩)
      · rcases ih (head ++ raw) (some m) t with
          ⟨a, n, block, blank, rest, ha, hl, rfl, hh, hb⟩ | ⟨cause, u, hf⟩ | ⟨e, u, he, hf⟩
        · exact .inl ⟨a, n, raw ++ block, blank, rest, hr.trans ha, by simp [hl],
            by rw [List.append_assoc, Supply.prepend_append raw], hh.length hs htext hv hm, hb⟩
        · exact .inr (.inl ⟨cause, u, hr.trans hf⟩)
        · exact .inr (.inr ⟨e, u, he.prepend raw, hr.trans hf⟩)
      · exact .inr (.inl hf)
    · generalize s.bytes = l at hl hs hc
      subst hs
      by_cases hne : l = []
      · obtain ⟨t, ht⟩ := readHeaders_nil unit (fuel + 1) head found
        exact .inr (.inl ⟨_, t, hne ▸ ht⟩)
      have hend (found : Option Nat) := readHeaders_nil unit fuel (head ++ l) found
      rcases readHeaders_line_cases hc hne unit fuel head found with
        ⟨htext, n, rfl, hr⟩ | ⟨-, -, hr⟩ | ⟨-, -, value, m, -, -, hr⟩ | hf
      · obtain rfl := headerLine_eq_nil hl hne htext
        exact .inl ⟨_, n, [], [cr], _, hr, by simp, rfl, heading_nil n, .inr ⟨rfl, rfl⟩⟩
      · obtain ⟨t, ht⟩ := hend found
        exact .inr (.inl ⟨_, t, hr.trans ht⟩)
      · obtain ⟨t, ht⟩ := hend (some m)
        exact .inr (.inl ⟨_, t, hr.trans ht⟩)
      · exact .inr (.inl hf)
    · exact .inr (.inr ⟨e, t, he, by rw [readHeaders, hc]⟩)

end

/-! ## Reading the content -/

section

variable {unit n : Nat} {head : Array UInt8} {s t : Supply}

theorem sizeLimit_lt_iff {size : Nat} : sizeLimit < size ↔ 2 ^ 63 ≤ size := by
  unfold sizeLimit UInt64.size
  omega

theorem readContent_overflow (hsize : 2 ^ 63 ≤ head.size + n + recordEnd.length) (unit : Nat)
    (s : Supply) : readContent unit head n s = (.overflow, s) := by
  rw [readContent, if_pos (sizeLimit_lt_iff.mpr hsize)]

theorem readContent_prepend {content : Bytes} (hlen : content.length = n)
    (hsize : head.size + n + recordEnd.length < 2 ^ 63) (unit : Nat) (rest : Supply) :
    readContent unit head n (rest.prepend (content ++ recordEnd)) =
      (.record (head.toList ++ content ++ recordEnd), rest) := by
  have htake : (rest.prepend (content ++ recordEnd)).take (n + recordEnd.length) =
      (.ok (some (content ++ recordEnd)), rest) := by
    have hall : (content ++ recordEnd).length = n + recordEnd.length := by
      rw [List.length_append, hlen]
    rw [← hall, Supply.take, Supply.prepend_bytes, List.take_left, List.drop_left, if_pos rfl]
    rfl
  subst hlen
  rw [readContent, if_neg fun h => Nat.not_lt_of_le (sizeLimit_lt_iff.mp h) hsize, htake]
  simp

theorem readContent_cases (unit : Nat) (head : Array UInt8) (n : Nat) (s : Supply) :
    (∃ content rest, readContent unit head n s =
        (.record (head.toList ++ content ++ recordEnd), rest) ∧
        s = rest.prepend (content ++ recordEnd) ∧ content.length = n ∧
        head.size + n + recordEnd.length < 2 ^ 63) ∨
      (∃ cause t, readContent unit head n s = (.failed (.malformed unit cause), t)) ∨
      (∃ e t, s.FailsWith e ∧ readContent unit head n s = (.failed (.io e), t)) ∨
      2 ^ 63 ≤ head.size + n + recordEnd.length ∧ readContent unit head n s = (.overflow, s) := by
  rcases Nat.lt_or_ge (head.size + n + recordEnd.length) (2 ^ 63) with hsize | hsize
  swap
  · exact .inr (.inr (.inr ⟨hsize, readContent_overflow hsize unit s⟩))
  rw [readContent, if_neg fun h => Nat.not_lt_of_le (sizeLimit_lt_iff.mp h) hsize]
  rcases s.take_cases (n + recordEnd.length) with
    ⟨part, t, hlen, hs, ht⟩ | ⟨-, -, ht⟩ | ⟨e, t, -, he, -, ht⟩ <;> simp only [ht]
  · split_ifs with hend
    · have hpart : part.take n ++ recordEnd = part := by rw [← hend, List.take_append_drop]
      refine .inl ⟨part.take n, t, ?_, by rw [hpart, hs], ?_, hsize⟩
      · rw [List.append_assoc, hpart, Array.toList_appendList]
      · rw [List.length_take]
        omega
    · exact .inr (.inl ⟨_, _, rfl⟩)
  · exact .inr (.inl ⟨_, _, rfl⟩)
  · split_ifs
    · exact .inr (.inl ⟨_, _, rfl⟩)
    · exact .inr (.inr (.inl ⟨e, t, he, rfl⟩))

end

/-! ## Reading a record -/

theorem WellFormed.length {record : Bytes} (h : WellFormed record) :
    recordEnd.length < record.length := by
  obtain ⟨head, blank, content, n, rfl, -, hb, -⟩ := h
  have := List.length_pos_iff.mpr hb.ne_nil
  simp only [List.length_append]
  omega

theorem WellFormed.ne_nil {record : Bytes} (h : WellFormed record) : record ≠ [] :=
  List.ne_nil_of_length_pos (Nat.zero_lt_of_lt h.length)

theorem readWarc_line {s t : Supply} {raw : Bytes} (hc : s.cutLine = (.ok raw, t)) (hne : raw ≠ [])
    (unit : Nat) :
    readWarc unit s =
      if headerLine raw ≠ versionLine then
        (.failed (.malformed unit (.version (headerLine raw))), t)
      else match readHeaders unit (t.bytes.length + 1) raw.toArray none t with
        | .failed failure t => (.failed failure, t)
        | .complete head n t => readContent unit head n t := by
  rw [readWarc, hc]
  cases raw with
  | nil => exact absurd rfl hne
  | cons b raw => rfl

theorem readWarc_opens {s rest : Supply} {head : Bytes} {n : Nat} (h : Opens s head n rest)
    (unit : Nat) : ∃ a, a.toList = head ∧ readWarc unit s = readContent unit a n rest := by
  obtain ⟨rfl, opening, blank, rfl, ho, hb⟩ := h
  obtain ⟨version, block, rfl, hv, raws, headers, rfl, hall, hnil, hn⟩ := opening_iff.mp ho
  obtain ⟨-, -, -, hversion⟩ := hv.line
  have hfuel : raws.length < (rest.prepend (raws.flatten ++ blank)).bytes.length + 1 := by
    have := length_le_length_flatten fun raw hraw =>
      let ⟨_, _, hs⟩ := exists_of_forall₂ hall hraw
      hs.ne_nil
    simp only [Supply.prepend_bytes, List.length_append]
    omega
  obtain ⟨a, ha, hl⟩ := readHeaders_heading hall hnil hn hb unit hfuel version.toArray
  refine ⟨a, by simp [hl], ?_⟩
  rw [List.append_assoc, Supply.prepend_append, readWarc_line (cutLine_spells hv _) hv.ne_nil,
    if_neg (not_not_intro hversion), ha]

/-- **A record is read, whatever follows it.** -/
theorem readWarc_append {record : Bytes} (h : WellFormed record) (hsize : record.length < 2 ^ 63)
    (unit : Nat) (rest : Bytes) :
    readWarc unit { bytes := record ++ rest } = (.record record, { bytes := rest }) := by
  obtain ⟨head, blank, content, n, rfl, ho, hb, hlen⟩ := h
  have hopens : Opens { bytes := head ++ blank ++ content ++ recordEnd ++ rest } (head ++ blank) n
      (Supply.prepend (content ++ recordEnd) { bytes := rest }) := by
    refine ⟨?_, head, blank, rfl, ho, .inl hb⟩
    simp only [Supply.prepend, List.append_assoc]
  obtain ⟨a, hl, hread⟩ := readWarc_opens hopens unit
  have hsize : a.size + n + recordEnd.length < 2 ^ 63 := by
    rw [← Array.length_toList, hl, ← hlen]
    simpa only [List.length_append, Nat.add_assoc] using hsize
  rw [hread, readContent_prepend hlen hsize, hl]

theorem readWarc_opens_cases {s rest : Supply} {head : Bytes} {n : Nat} (h : Opens s head n rest)
    (unit : Nat) :
    (∃ record rest, readWarc unit s = (.record record, rest) ∧ WellFormed record ∧
        record.length < 2 ^ 63 ∧ s = rest.prepend record) ∨
      (∃ cause t, readWarc unit s = (.failed (.malformed unit cause), t)) ∨
      (∃ e t, s.FailsWith e ∧ readWarc unit s = (.failed (.io e), t)) ∨
      2 ^ 63 ≤ head.length + n + recordEnd.length ∧ readWarc unit s = (.overflow, rest) := by
  obtain ⟨a, ha, hread⟩ := readWarc_opens h unit
  obtain ⟨rfl, opening, blank, rfl, ho, hb⟩ := h
  have hsize : a.size = (opening ++ blank).length := by rw [← Array.length_toList, ha]
  rw [hread]
  rcases readContent_cases unit a n rest with
    ⟨content, more, hr, rfl, hlen, hlt⟩ | hf | ⟨e, t, he, hf⟩ | ⟨hle, hf⟩
  · have hblank : Spells blank [] := by
      rcases hb with hb | ⟨-, hnil⟩
      · exact hb
      · have := congrArg Supply.bytes hnil
        simp [recordEnd] at this
    refine .inl ⟨_, more, hr, ⟨opening, blank, content, n, by rw [ha], ho, hblank, hlen⟩, ?_, ?_⟩
    · rw [List.length_append, List.length_append, Array.length_toList, hlen]
      exact hlt
    · rw [ha, List.append_assoc _ content, Supply.prepend_append (opening ++ blank)]
  · exact .inr (.inl hf)
  · exact .inr (.inr (.inl ⟨e, t, he.prepend _, hf⟩))
  · exact .inr (.inr (.inr ⟨hsize ▸ hle, hf⟩))

/-- **What is read is a record, or the supply is at its end, or it does not start with a record, or
it fails**, or a record is announced that cannot be held. -/
theorem readWarc_outcome (unit : Nat) (s : Supply) :
    (∃ record rest, readWarc unit s = (.record record, rest) ∧ WellFormed record ∧
        record.length < 2 ^ 63 ∧ s = rest.prepend record) ∨
      s = { bytes := [] } ∧ readWarc unit s = (.ended, { bytes := [] }) ∨
      (s.bytes ≠ [] ∧ ∃ cause t, readWarc unit s = (.failed (.malformed unit cause), t)) ∨
      (∃ e t, s.FailsWith e ∧ readWarc unit s = (.failed (.io e), t)) ∨
      ∃ head n rest, Opens s head n rest ∧ 2 ^ 63 ≤ head.length + n + recordEnd.length ∧
        readWarc unit s = (.overflow, rest) := by
  have hlast (hs : s = { bytes := [] }) :
      s = { bytes := [] } ∧ readWarc unit s = (.ended, { bytes := [] }) := by
    refine ⟨hs, ?_⟩
    rw [hs, readWarc, Supply.cutLine_last (l := []) (by simp)]
  rcases s.cutLine_cases with ⟨l, t, hl, hs, hc⟩ | ⟨hl, hs, hc⟩ | ⟨e, t, he, hc⟩
  · have hv := spells_headerLine hl
    generalize l ++ [lf] = raw at hv hs hc
    have hne : s.bytes ≠ [] := by simp [hs, hv.ne_nil]
    rw [readWarc_line hc hv.ne_nil]
    split_ifs with hversion
    · exact .inr (.inr (.inl ⟨hne, _, _, rfl⟩))
    rw [not_not.mp hversion] at hv
    rcases readHeaders_cases unit (t.bytes.length + 1) raw.toArray none t with
      ⟨a, n, block, blank, rest, ha, hl, rfl, hh, hb⟩ | ⟨cause, u, hf⟩ | ⟨e, u, he, hf⟩
    · have ho : Opening (raw ++ block) n := opening_iff.mpr ⟨raw, block, rfl, hv, hh⟩
      have hopens : Opens s (raw ++ block ++ blank) n rest :=
        ⟨by rw [hs, List.append_assoc, Supply.prepend_append raw], raw ++ block, blank, rfl, ho, hb⟩
      have hread : readWarc unit s = readContent unit a n rest := by
        rw [readWarc_line hc hv.ne_nil, if_neg hversion, ha]
      simp only [ha]
      rw [← hread]
      rcases readWarc_opens_cases hopens unit with hr | hf | hf | hf
      · exact .inl hr
      · exact .inr (.inr (.inl ⟨hne, hf⟩))
      · exact .inr (.inr (.inr (.inl hf)))
      · exact .inr (.inr (.inr (.inr ⟨_, n, rest, hopens, hf⟩)))
    · exact .inr (.inr (.inl ⟨hne, cause, u, by rw [hf]⟩))
    · exact .inr (.inr (.inr (.inl ⟨e, u, hs ▸ he.prepend raw, by rw [hf]⟩)))
  · by_cases hne : s.bytes = []
    · exact .inr (.inl (hlast (hne ▸ hs)))
    · refine .inr (.inr (.inl ⟨hne, ?_⟩))
      rw [readWarc_line hc hne]
      split_ifs with hv
      · exact ⟨_, _, rfl⟩
      · obtain ⟨t, ht⟩ := readHeaders_nil unit 1 s.bytes.toArray none
        exact ⟨.endInHeader, t, by simp only [List.length_nil, ht]⟩
  · exact .inr (.inr (.inr (.inl ⟨e, t, he, by rw [readWarc, hc]⟩)))

theorem readWarc_cases (unit : Nat) {s : Bytes} (h : Holdable s) :
    (∃ record rest, readWarc unit { bytes := s } = (.record record, { bytes := rest }) ∧
        WellFormed record ∧ s = record ++ rest) ∨
      s = [] ∧ readWarc unit { bytes := s } = (.ended, { bytes := [] }) ∨
      s ≠ [] ∧ ∃ cause t, readWarc unit { bytes := s } = (.failed (.malformed unit cause), t) := by
  rcases readWarc_outcome unit { bytes := s } with
    ⟨record, rest, hr, hw, -, hs⟩ | ⟨hs, he⟩ | hf | ⟨e, t, he, -⟩ | ⟨head, n, rest, ho, hle, -⟩
  · obtain ⟨more, rfl, rfl⟩ := Supply.of_prepend_pure hs
    exact .inl ⟨record, more, hr, hw, rfl⟩
  · exact .inr (.inl ⟨congrArg Supply.bytes hs, he⟩)
  · exact .inr (.inr hf)
  · exact absurd he (Supply.not_failsWith_pure s e)
  · obtain ⟨hs, opening, blank, rfl, ho, hb⟩ := ho
    exact absurd (h opening blank n rest.bytes (congrArg Supply.bytes hs) ho hb.closes)
      (Nat.not_lt_of_le hle)

/-! ## Records one after the other -/

theorem Holdable.length_lt {record rest : Bytes} (h : Holdable (record ++ rest))
    (hr : WellFormed record) : record.length < 2 ^ 63 := by
  obtain ⟨head, blank, content, n, rfl, ho, hb, rfl⟩ := hr
  have hsize := h head blank content.length (content ++ recordEnd ++ rest)
    (by simp only [List.append_assoc]) ho (.inl hb)
  simpa only [List.length_append, Nat.add_assoc] using hsize

theorem Bounded.holdable {s : Bytes} (h : Bounded s) : Holdable s := h [] s rfl (by simp)

theorem Bounded.rest {record rest : Bytes} (h : Bounded (record ++ rest)) (hr : WellFormed record) :
    Bounded rest := by
  rintro rs more rfl hrs
  refine h (record :: rs) more (by simp) fun r hm => ?_
  rcases List.mem_cons.mp hm with rfl | hm
  · exact hr
  · exact hrs r hm

theorem WellFormed.append_inj {r r' s s' : Bytes} (hr : WellFormed r) (hr' : WellFormed r')
    (h : Holdable (r ++ s)) (e : r ++ s = r' ++ s') : r = r' ∧ s = s' := by
  have h1 := readWarc_append hr (h.length_lt hr) 1 s
  have h2 := readWarc_append hr' ((e ▸ h).length_lt hr') 1 s'
  rw [e, h2, Prod.mk.injEq, RecordRead.record.injEq, Supply.mk.injEq] at h1
  exact ⟨h1.1.symm, h1.2.1.symm⟩

/-- Records that are followed by no other are the longest sequence. -/
theorem prefix_of_flatten {rs rs' : List Bytes} {rest : Bytes} (hb : Bounded (rs.flatten ++ rest))
    (hrs : ∀ r ∈ rs, WellFormed r) (hend : ∀ r more, WellFormed r → rest ≠ r ++ more)
    (hrs' : ∀ r ∈ rs', WellFormed r) (h : rs'.flatten <+: rs.flatten ++ rest) : rs' <+: rs := by
  induction rs' generalizing rs with
  | nil => exact List.nil_prefix
  | cons r' rs' ih =>
    have hr' := hrs' r' List.mem_cons_self
    obtain ⟨more, e⟩ := h
    rw [List.flatten_cons, List.append_assoc] at e
    cases rs with
    | nil => exact absurd e.symm (hend r' _ hr')
    | cons r rs =>
      have hr := hrs r List.mem_cons_self
      rw [List.flatten_cons, List.append_assoc] at e hb
      obtain ⟨rfl, he⟩ := hr'.append_inj hr (e ▸ hb.holdable) e
      refine (List.prefix_cons_inj r').mpr (ih (hb.rest hr) ?_ ?_ ⟨more, he⟩)
      · exact fun q hq => hrs q (List.mem_cons_of_mem r' hq)
      · exact fun q hq => hrs' q (List.mem_cons_of_mem r' hq)

/-! ## Streams with few digits -/

/-- A digit. -/
def isDigit (b : UInt8) : Bool := 48 ≤ b ∧ b ≤ 57

theorem countP_isDigit_encode (text : List Char) :
    text.countP Char.isDigit ≤ (Utf8.encode text).countP isDigit := by
  induction text with
  | nil => simp
  | cons c text ih =>
    rw [Utf8.encode_cons, List.countP_append]
    by_cases hc : c.isDigit = true
    · obtain ⟨hlo, hhi⟩ := Char.isDigit_iff_toNat.mp hc
      have hlo : 48 ≤ c.toNat := hlo
      have hhi : c.toNat ≤ 57 := hhi
      have hbyte : Utf8.encodeChar c = [UInt8.ofNat c.toNat] := by
        unfold Utf8.encodeChar
        simp only
        rw [if_pos (by omega)]
      have hdigit : isDigit (UInt8.ofNat c.toNat) = true := by
        have hn : (UInt8.ofNat c.toNat).toNat = c.toNat := UInt8.toNat_ofNat_of_lt' (by
          unfold UInt8.size
          omega)
        simp only [isDigit, UInt8.le_iff_toNat_le, hn]
        exact decide_eq_true ⟨hlo, hhi⟩
      rw [List.countP_cons_of_pos hc, hbyte, List.countP_singleton, if_pos hdigit]
      omega
    · rw [List.countP_cons_of_neg hc]
      omega

theorem parseLength_lt {value : Bytes} {n : Nat} (h : parseLength value = some n) :
    n < 10 ^ value.countP isDigit := by
  unfold parseLength at h
  split at h
  · rename_i text ht
    have hlt := Decimal.word?_lt h
    have htrim : (Text.trim text).countP Char.isDigit ≤ text.countP Char.isDigit := by
      have hback : List.Sublist ((text.dropWhile Text.isBlank).reverse.dropWhile Text.isBlank)
          (text.dropWhile Text.isBlank).reverse := List.dropWhile_sublist _
      have hfront : List.Sublist (text.dropWhile Text.isBlank) text := List.dropWhile_sublist _
      rw [Text.trim, List.countP_reverse]
      refine hback.countP_le.trans ?_
      rw [List.countP_reverse]
      exact hfront.countP_le
    have hle := countP_isDigit_encode text
    rw [← Utf8.decode_eq_ok_iff.mp ht] at hle
    exact hlt.trans_le (Nat.pow_le_pow_right (by omega) (htrim.trans hle))
  · cases h

theorem Opening.sublist {head : Bytes} {n : Nat} (h : Opening head n) :
    ∃ value, parseLength value = some n ∧ value.Sublist head := by
  obtain ⟨version, raws, headers, rfl, -, hall, -, hone⟩ := h
  obtain ⟨before, header, after, value, rfl, hv, hn, -⟩ := hone
  obtain ⟨raw, hr, -, hraw⟩ :=
    exists_of_forall₂ hall.flip (List.mem_append_right before List.mem_cons_self)
  obtain ⟨name, rfl, -⟩ := hv
  have hvalue : value.Sublist raw := by
    have hheader : value.Sublist (name ++ value) := List.sublist_append_right name value
    rcases hraw with rfl | ⟨rfl, -⟩
    · exact hheader.trans (List.sublist_append_left _ _)
    · exact hheader.trans (List.sublist_append_left _ _)
  refine ⟨value, hn, (hvalue.trans (List.sublist_flatten_of_mem hr)).trans ?_⟩
  exact List.sublist_append_right version _

theorem bounded_of_digits {s : Bytes} (hd : s.countP isDigit ≤ 18) (hs : s.length ≤ 10 ^ 18) :
    Bounded s := by
  rintro rs rest rfl - head blank n more rfl ho -
  obtain ⟨value, hn, hsub⟩ := ho.sublist
  have hcount : value.countP isDigit ≤ head.countP isDigit := hsub.countP_le
  simp only [List.countP_append, List.length_append] at hd hs
  have hlt : n < 10 ^ 18 :=
    (parseLength_lt hn).trans_le (Nat.pow_le_pow_right (by omega) (by omega))
  have hend : recordEnd.length = 4 := rfl
  rw [List.length_append, hend]
  omega

end Record

namespace RecordReader

open Record (WellFormed Bounded)

/-- What reading so many times comes to, and the reader after it. -/
def reads : Nat → RecordReader → List RecordRead × RecordReader
  | 0, r => ([], r)
  | n + 1, r => (r.next.1 :: (reads n r.next.2).1, (reads n r.next.2).2)

theorem exists_reads (s : Bytes) (hb : Bounded s) (count : Nat) :
    ∃ rs rest, s = List.flatten rs ++ rest ∧ (∀ r ∈ rs, WellFormed r) ∧
      (∀ r more, WellFormed r → rest ≠ r ++ more) ∧
      reads rs.length ⟨{ bytes := s }, .warc, count⟩ =
        (rs.map .record, ⟨{ bytes := rest }, .warc, count + rs.length⟩) ∧
      (rest = [] → (next ⟨{ bytes := rest }, .warc, count + rs.length⟩).1 = .ended) ∧
      (rest ≠ [] → ∃ cause, (next ⟨{ bytes := rest }, .warc, count + rs.length⟩).1 =
        .failed (.malformed (count + rs.length + 1) cause)) := by
  rcases Record.readWarc_cases (count + 1) hb.holdable with
    ⟨r, rest, hread, hr, rfl⟩ | ⟨rfl, hread⟩ | ⟨hne, cause, t, hread⟩
  · have hlt : rest.length < (r ++ rest).length := by
      have := List.length_pos_iff.mpr hr.ne_nil
      rw [List.length_append]
      omega
    have hnext : next ⟨{ bytes := r ++ rest }, .warc, count⟩ =
        (.record r, ⟨{ bytes := rest }, .warc, count + 1⟩) := by simp [next, hread]
    obtain ⟨rs, more, rfl, hrs, hend, hreads, hlast⟩ := exists_reads rest (hb.rest hr) (count + 1)
    have hcount : count + (r :: rs).length = count + 1 + rs.length := by
      rw [List.length_cons]
      omega
    refine ⟨r :: rs, more, by simp, ?_, hend, ?_, hcount ▸ hlast⟩
    · intro q hq
      rcases List.mem_cons.mp hq with rfl | hq
      · exact hr
      · exact hrs q hq
    · rw [hcount]
      simp [reads, hnext, hreads]
  · refine ⟨[], [], rfl, by simp, ?_, rfl, fun _ => by simp [next, hread], fun h => absurd rfl h⟩
    exact fun r more hr e => hr.ne_nil (List.append_eq_nil_iff.mp e.symm).1
  · refine ⟨[], s, rfl, by simp, fun r more hr e => ?_, rfl, fun h => absurd h hne, fun _ => ?_⟩
    · subst e
      rw [Record.readWarc_append hr (hb.holdable.length_lt hr)] at hread
      cases hread
    · exact ⟨cause, by simp [next, hread]⟩
termination_by s.length

/-- **Exactly the records are read.** A stream is a sequence of records, the longest that it starts
with, and a rest. These records are read byte for byte; then the stream is at its end if nothing is
left, and else the next record is malformed. A stream of records is read as these records. -/
theorem reads_longest (s : Bytes) (hb : Bounded s) :
    ∃ rs rest, s = List.flatten rs ++ rest ∧ (∀ r ∈ rs, WellFormed r) ∧
      (∀ rs', (∀ r ∈ rs', WellFormed r) → rs'.flatten <+: s → rs' <+: rs) ∧
      (∀ rs', (∀ r ∈ rs', WellFormed r) → s = rs'.flatten → rs' = rs ∧ rest = []) ∧
      reads rs.length ⟨{ bytes := s }, .warc, 0⟩ =
        (rs.map .record, ⟨{ bytes := rest }, .warc, rs.length⟩) ∧
      (rest = [] → (next ⟨{ bytes := rest }, .warc, rs.length⟩).1 = .ended) ∧
      (rest ≠ [] → ∃ cause, (next ⟨{ bytes := rest }, .warc, rs.length⟩).1 =
        .failed (.malformed (rs.length + 1) cause)) := by
  obtain ⟨rs, rest, rfl, hrs, hend, hreads, hlast⟩ := exists_reads s hb 0
  rw [Nat.zero_add] at hreads hlast
  have hmax (rs' : List Bytes) (hrs' : ∀ r ∈ rs', WellFormed r)
      (h : rs'.flatten <+: rs.flatten ++ rest) : rs' <+: rs :=
    Record.prefix_of_flatten hb hrs hend hrs' h
  refine ⟨rs, rest, rfl, hrs, hmax, fun rs' hrs' e => ?_, hreads, hlast⟩
  obtain ⟨more, rfl⟩ := hmax rs' hrs' ⟨[], by rw [List.append_nil, e]⟩
  rw [List.flatten_append, List.append_assoc, List.append_right_eq_self,
    List.append_eq_nil_iff] at e
  have hmore : more = [] := by
    refine List.eq_nil_iff_forall_not_mem.mpr fun r hr => ?_
    exact (hrs r (List.mem_append_right rs' hr)).ne_nil (List.flatten_eq_nil_iff.mp e.1 r hr)
  exact ⟨by rw [hmore, List.append_nil], e.2⟩

/-- Content that looks like the end of a record, no content, and a rest that is no record. -/
theorem reads_longest_two :
    let first := Bytes.ofString "WARC/1.0\r\nX:\r\ncontent-LENGTH: 4\r\n\r\n\r\n\r\n\r\n\r\n"
    let second := Bytes.ofString "WARC/1.0\nContent-Length:0\n\n\r\n\r\n"
    let s := first ++ second ++ Bytes.ofString "WARC"
    Bounded s ∧ ∃ r, reads 2 ⟨{ bytes := s }, .warc, 0⟩ = ([.record first, .record second], r) ∧
      ∃ cause, r.next.1 = .failed (.malformed 3 cause) := by
  intro first second s
  have hb : Bounded s := Record.bounded_of_digits (by decide +kernel) (by decide +kernel)
  have hfirst : WellFormed first := by
    refine ⟨Bytes.ofString "WARC/1.0\r\nX:\r\ncontent-LENGTH: 4\r\n", [cr, lf], Record.recordEnd, 4,
      by decide +kernel, ?_, by decide, rfl⟩
    refine ⟨Bytes.ofString "WARC/1.0\r\n",
      [Bytes.ofString "X:\r\n", Bytes.ofString "content-LENGTH: 4\r\n"],
      [Bytes.ofString "X:", Bytes.ofString "content-LENGTH: 4"],
      by decide +kernel, by decide +kernel, by decide +kernel, by decide +kernel, ?_⟩
    exact Record.announces_iff.mpr (by decide +kernel)
  have hsecond : WellFormed second := by
    refine ⟨Bytes.ofString "WARC/1.0\nContent-Length:0\n", [lf], [], 0, by decide +kernel, ?_,
      by decide, rfl⟩
    refine ⟨Bytes.ofString "WARC/1.0\n", [Bytes.ofString "Content-Length:0\n"],
      [Bytes.ofString "Content-Length:0"],
      by decide +kernel, by decide +kernel, by decide +kernel, by decide +kernel, ?_⟩
    exact Record.announces_iff.mpr (by decide +kernel)
  obtain ⟨rs, rest, hs, hrs, hmax, -, hreads, -, hlast⟩ := reads_longest s hb
  have htwo : [first, second] <+: rs := by
    refine hmax _ ?_ ⟨Bytes.ofString "WARC", by simp [s]⟩
    simp [hfirst, hsecond]
  obtain ⟨more, rfl⟩ := htwo
  have htail : Bytes.ofString "WARC" = more.flatten ++ rest := by
    simpa [s] using hs
  refine ⟨hb, ?_⟩
  cases more with
  | nil =>
    rw [List.flatten_nil, List.nil_append] at htail
    subst htail
    exact ⟨_, hreads, hlast (by decide +kernel)⟩
  | cons r more =>
    have hlen := (hrs r (by simp)).length
    have hfour := congrArg List.length htail
    rw [show (Bytes.ofString "WARC").length = Record.recordEnd.length by decide +kernel,
      List.flatten_cons, List.length_append, List.length_append] at hfour
    omega

end RecordReader

end Coprocess
