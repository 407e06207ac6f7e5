import Coprocess.Proofs.Record.Reading

/-!
# Streams that divide into records

A stream divides into whole records in one way at most, and a reader finds it.

* `Framing.Whole`: a record of its own;
* `Framing.completed`, `Framing.Divides`: whole records one after the other are a stream, the last
  line of which gets a line feed if it has none;
* `Framing.flatten_inj`, `Framing.Divides.unique`: there is one way to divide;
* **`RecordReader.next_record`**, **`RecordReader.next_ended`**: what is read from any supply is the
  first record of it, or nothing is left of it.
-/

namespace Coprocess

/-! ## Whole records -/

namespace Framing

/-- A record of its own. -/
def Whole : Framing → Bytes → Prop
  | .warc, r => Record.WellFormed r ∧ r.length < 2 ^ 63
  | .lines, r => ∃ l, lf ∉ l ∧ r = l ++ [lf]

/-- A stream whose last line ends with a line feed, if lines are told apart. -/
def completed : Framing → Bytes → Bytes
  | .warc, s => s
  | .lines, s => if Terminated s then s else s ++ [lf]

/-- The whole records `rs`, one after the other, are the stream `s`. -/
structure Divides (f : Framing) (s : Bytes) (rs : List Bytes) : Prop where
  whole : ∀ r ∈ rs, f.Whole r
  flatten : rs.flatten = f.completed s

variable {f : Framing} {r r' s s' : Bytes} {rs rs' : List Bytes}

theorem Whole.ne_nil (h : f.Whole r) : r ≠ [] := by
  cases f with
  | warc => exact h.1.ne_nil
  | lines =>
    obtain ⟨l, -, rfl⟩ := h
    simp

theorem Whole.append_inj (hr : f.Whole r) (hr' : f.Whole r') (h : r ++ s = r' ++ s') :
    r = r' ∧ s = s' := by
  cases f with
  | warc =>
    have h1 := Record.readWarc_append hr.1 hr.2 1 s
    have h2 := Record.readWarc_append hr'.1 hr'.2 1 s'
    rw [h, h2, Prod.mk.injEq, RecordRead.record.injEq, Supply.mk.injEq] at h1
    exact ⟨h1.1.symm, h1.2.1.symm⟩
  | lines =>
    obtain ⟨l, hl, rfl⟩ := hr
    obtain ⟨l', hl', rfl⟩ := hr'
    have h1 := cutLine_line hl s
    have h2 := cutLine_line hl' s'
    rw [List.append_cons, h, ← List.append_cons, h2, Prod.mk.injEq] at h1
    exact ⟨h1.1.symm, h1.2.symm⟩

theorem flatten_inj (hrs : ∀ r ∈ rs, f.Whole r) (hrs' : ∀ r ∈ rs', f.Whole r)
    (h : rs.flatten = rs'.flatten) : rs = rs' := by
  induction rs generalizing rs' with
  | nil =>
    cases rs' with
    | nil => rfl
    | cons r' rs' =>
      rw [List.flatten_cons] at h
      exact absurd (List.append_eq_nil_iff.mp h.symm).1 (hrs' r' List.mem_cons_self).ne_nil
  | cons r rs ih =>
    have hr := hrs r List.mem_cons_self
    cases rs' with
    | nil => exact absurd (List.append_eq_nil_iff.mp h).1 hr.ne_nil
    | cons r' rs' =>
      rw [List.flatten_cons, List.flatten_cons] at h
      obtain ⟨rfl, hrest⟩ := hr.append_inj (hrs' r' List.mem_cons_self) h
      rw [ih (fun q hq => hrs q (List.mem_cons_of_mem r hq))
        (fun q hq => hrs' q (List.mem_cons_of_mem r hq)) hrest]

theorem Whole.completed_append (hr : f.Whole r) (s : Bytes) :
    f.completed (r ++ s) = r ++ f.completed s := by
  cases f with
  | warc => rfl
  | lines =>
    obtain ⟨l, hl, rfl⟩ := hr
    rw [← List.append_cons, completed, completed]
    by_cases hs : Terminated s
    · rw [if_pos hs, if_pos (terminated_line_iff.mpr hs), List.append_cons]
    · rw [if_neg hs, if_neg fun h => hs (terminated_line_iff.mp h)]
      simp

theorem completed_nil (f : Framing) : f.completed [] = [] := by
  cases f <;> rfl

theorem divides_nil (f : Framing) : f.Divides [] [] :=
  ⟨fun _ hr => absurd hr List.not_mem_nil, (completed_nil f).symm⟩

theorem Divides.cons (h : f.Divides s rs) (hr : f.Whole r) : f.Divides (r ++ s) (r :: rs) := by
  refine ⟨fun q hq => ?_, ?_⟩
  · rcases List.mem_cons.mp hq with rfl | hq
    · exact hr
    · exact h.whole q hq
  · rw [List.flatten_cons, h.flatten, hr.completed_append]

theorem divides_flatten (hrs : ∀ r ∈ rs, f.Whole r) : f.Divides rs.flatten rs := by
  induction rs with
  | nil => exact divides_nil f
  | cons r rs ih =>
    exact (ih fun q hq => hrs q (List.mem_cons_of_mem r hq)).cons (hrs r List.mem_cons_self)

/-- **There is one way to divide a stream.** -/
theorem Divides.unique (h : f.Divides s rs) (h' : f.Divides s rs') : rs = rs' :=
  flatten_inj h.whole h'.whole (h.flatten.trans h'.flatten.symm)

end Framing

/-! ## Reading from any supply -/

namespace Record

theorem readLine_cases (s : Supply) :
    (∃ l t, lf ∉ l ∧ s = t.prepend (l ++ [lf]) ∧ readLine s = (.record (l ++ [lf]), t)) ∨
      (∃ l, lf ∉ l ∧ l ≠ [] ∧ s = { bytes := l } ∧
        readLine s = (.record (l ++ [lf]), { bytes := [] })) ∨
      s = { bytes := [] } ∧ readLine s = (.ended, { bytes := [] }) ∨
      ∃ e t, s.FailsWith e ∧ readLine s = (.failed (.io e), t) := by
  rcases s.cutLine_cases with ⟨l, t, hl, hs, hc⟩ | ⟨hl, hs, hc⟩ | ⟨e, t, he, hc⟩
  · refine .inl ⟨l, t, hl, hs, ?_⟩
    have hlast : (l ++ [lf]).getLast? = some lf := List.getLast?_concat ..
    rw [readLine, hc]
    generalize hraw : l ++ [lf] = raw at hlast
    cases raw with
    | nil => cases hlast
    | cons b raw => simp only [if_pos hlast]
  · generalize s.bytes = l at hl hs hc
    cases l with
    | nil => exact .inr (.inr (.inl ⟨hs, by rw [readLine, hc]⟩))
    | cons b l =>
      have hlast : ¬ (b :: l).getLast? = some lf := fun he => hl (List.mem_of_getLast? he)
      refine .inr (.inl ⟨b :: l, hl, List.cons_ne_nil _ _, hs, ?_⟩)
      rw [readLine, hc]
      simp only [if_neg hlast]
  · exact .inr (.inr (.inr ⟨e, t, he, by rw [readLine, hc]⟩))

end Record

namespace RecordReader

open Framing (Divides)

variable {r r' : RecordReader} {x : Bytes}

theorem next_eq {read : RecordRead} (h : r.next = (read, r')) :
    r'.framing = r.framing ∧
      (match r.framing with
        | .warc => Record.readWarc (r.count + 1) r.supply
        | .lines => Record.readLine r.supply) = (read, r'.supply) := by
  cases h
  exact ⟨rfl, rfl⟩

/-- **A record that is read is the first one of the supply**, and the rest of the supply follows it;
or it is the last line of a supply without faults, and got its line feed. -/
theorem next_record (h : r.next = (.record x, r')) :
    r.framing.Whole x ∧
      (r.supply = r'.supply.prepend x ∨
        r.supply = { bytes := r.supply.bytes } ∧ r'.supply = { bytes := [] } ∧
          r.framing.completed r.supply.bytes = x) := by
  obtain ⟨supply, framing, count⟩ := r
  cases framing with
  | warc =>
    have hread : Record.readWarc (count + 1) supply = (.record x, r'.supply) := (next_eq h).2
    rcases Record.readWarc_outcome (count + 1) supply with
      ⟨y, rest, hr, hw, hlen, hs⟩ | ⟨-, hr⟩ | ⟨-, cause, t, hr⟩ | ⟨e, t, -, hr⟩ |
      ⟨head, n, rest, -, -, hr⟩ <;> rw [hread] at hr <;> cases hr
    exact ⟨⟨hw, hlen⟩, .inl hs⟩
  | lines =>
    have hread : Record.readLine supply = (.record x, r'.supply) := (next_eq h).2
    rcases Record.readLine_cases supply with
      ⟨l, t, hl, hs, hr⟩ | ⟨l, hl, hne, rfl, hr⟩ | ⟨-, hr⟩ | ⟨e, t, -, hr⟩ <;>
      rw [hread, Prod.mk.injEq] at hr <;> obtain ⟨hx, ht⟩ := hr <;> cases hx
    · exact ⟨⟨l, hl, rfl⟩, .inl (ht ▸ hs)⟩
    · exact ⟨⟨l, hl, rfl⟩, .inr ⟨rfl, ht, if_neg (not_terminated_rest hl hne)⟩⟩

/-- **Nothing is left of a supply that is at its end**, and no fault follows. -/
theorem next_ended (h : r.next = (.ended, r')) : r.supply = { bytes := [] } := by
  obtain ⟨supply, framing, count⟩ := r
  cases framing with
  | warc =>
    have hread : Record.readWarc (count + 1) supply = (.ended, r'.supply) := (next_eq h).2
    rcases Record.readWarc_outcome (count + 1) supply with
      ⟨y, rest, hr, -⟩ | ⟨hs, -⟩ | ⟨-, cause, t, hr⟩ | ⟨e, t, -, hr⟩ |
      ⟨head, n, rest, -, -, hr⟩
    case inr.inl => exact hs
    all_goals
      rw [hread] at hr
      cases hr
  | lines =>
    have hread : Record.readLine supply = (.ended, r'.supply) := (next_eq h).2
    rcases Record.readLine_cases supply with
      ⟨l, t, hl, hs, hr⟩ | ⟨l, hl, hne, hs, hr⟩ | ⟨hs, -⟩ | ⟨e, t, -, hr⟩
    case inr.inr.inl => exact hs
    all_goals
      rw [hread] at hr
      cases hr

theorem next_divides (h : r.next = (.record x, r')) {rs : List Bytes}
    (hrs : r.framing.Divides r'.supply.bytes rs) :
    r.framing.Divides r.supply.bytes (x :: rs) := by
  obtain ⟨hx, hs | ⟨-, hr', hs⟩⟩ := next_record h
  · rw [hs, Supply.prepend_bytes]
    exact hrs.cons hx
  · rw [hr'] at hrs
    rw [hrs.unique (Framing.divides_nil _)]
    refine ⟨fun q hq => ?_, ?_⟩
    · rw [List.mem_singleton.mp hq]
      exact hx
    · rw [List.flatten_singleton, hs]

end RecordReader

end Coprocess
