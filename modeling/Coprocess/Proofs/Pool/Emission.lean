import Coprocess.Pool.Worker
import Coprocess.Proofs.Collector.Collecting
import Coprocess.Proofs.Gzip.Members
import Coprocess.Proofs.Record.Division

/-!
# Records on their way to the output

* `Drain.encoded`: what is written for a record;
* `Drain.Inv`: the records that a drain has written, with what it still holds, are the answer of its
  child, unless it fails;
* `Drain.Effect`: what a step does to the output;
* **`Drain.step_inv`**, **`Drain.Inv.of_ok`**: a drain that has returned has divided all of the
  answer into records.
-/

namespace Coprocess

namespace Drain

/-- What is written for a record. -/
def encoded (compress : Bool) (record : Bytes) : Bytes :=
  if compress then Gzip.compress record else record

theorem encoded_ne_nil {compress : Bool} {record : Bytes} (h : record ≠ []) :
    encoded compress record ≠ [] := by
  unfold encoded
  cases compress with
  | false => exact h
  | true => simp [Gzip.compress, Gzip.plainHeader, Gzip.magic]

/-- A drain that has failed. -/
def Fails (d : Drain) : Prop := ∃ e, d.result? = some (.error e)

/-- What holds of a drain that has written the records `es`, when `answered` is what its child has
written so far. The bytes that come later are `z`. -/
structure Inv (f : Framing) (compress : Bool) (es : List Bytes) (answered : Bytes) (p : Pipe)
    (d : Drain) : Prop where
  framing : d.framing = f
  compress : d.compress = compress
  count : d.emitted = es.length
  ended : d.ended = true → p.writable = false ∧ p.content = []
  ahead : d.Fails ∨ ∀ z more, (d.ended = true → z = []) →
    f.Divides (d.held ++ p.content ++ z) more → f.Divides (answered ++ z) (es ++ more)
  whole : ∀ n, d.result? = some (.ok n) → n = es.length ∧ d.ended = true ∧ d.held = []

/-- What a step of a drain does to the output: it writes a record at most. -/
structure Effect (compress : Bool) (o o' : Outlet) (es : List Bytes) : Prop where
  written : o'.written = o.written ++ (es.map (encoded compress)).flatten
  pieces : o'.pieces.length = o.pieces.length + es.length

variable {f : Framing} {compress : Bool} {es : List Bytes} {answered : Bytes} {p p' : Pipe}
  {d d' : Drain} {o o' : Outlet}

theorem inv_start (f : Framing) (compress : Bool) :
    Inv f compress [] [] {} { framing := f, compress } where
  framing := rfl
  compress := rfl
  count := rfl
  ended := fun h => by cases h
  ahead := .inr fun _ _ _ h => h
  whole := fun _ h => by cases h

theorem effect_nil (compress : Bool) (o : Outlet) : Effect compress o o [] :=
  ⟨(List.append_nil _).symm, rfl⟩

theorem Inv.grows {part : Bytes} (h : d.Inv f compress es answered p)
    (hg : Collector.Grows p p' part) : d.Inv f compress es (answered ++ part) p' := by
  have hlast : d.ended = true → part = [] := fun he => by_contra fun hne => by
    have hw := (hg.ends hne).1
    rw [(h.ended he).1] at hw
    cases hw
  refine ⟨h.framing, h.compress, h.count, fun he => ?_, h.ahead.imp id fun hahead => ?_, h.whole⟩
  · obtain ⟨hw, hc⟩ := h.ended he
    refine ⟨Bool.eq_false_iff.mpr fun hw' => ?_, ?_⟩
    · rw [hg.writable hw'] at hw
      cases hw
    · rw [hg.content, hc, hlast he]
      rfl
  · intro z more hz hmore
    rw [hg.content, List.append_assoc, List.append_assoc] at hmore
    rw [List.append_assoc]
    refine hahead (part ++ z) more (fun he => ?_) ?_
    · rw [hlast he, hz he]
      rfl
    · rwa [List.append_assoc]

theorem going_of_step (h : d.step p o = some (d', p', o')) : d.result? = none := by
  unfold step at h
  cases hr : d.result? with
  | none => rfl
  | some result =>
    rw [hr] at h
    cases h

theorem inv_fail {e : Failure} (h : d.Inv f compress es answered p) (o : Outlet) :
    (d.leave (.error e) p o).1.Inv f compress es answered (d.leave (.error e) p o).2.1 :=
  ⟨h.framing, h.compress, h.count, h.ended, .inl ⟨e, rfl⟩, fun n hn => by cases hn⟩

theorem inv_fill (h : d.fill p o = some (d', p', o')) (hinv : d.Inv f compress es answered p)
    (hended : d.ended = false) : d'.Inv f compress es answered p' ∧ o' = o := by
  unfold fill at h
  cases hr : p.read capacity with
  | data bytes p₁ =>
    rw [hr] at h
    cases h
    obtain ⟨hc, -⟩ := Pipe.read_data hr
    refine ⟨⟨hinv.framing, hinv.compress, hinv.count, fun he => ?_, hinv.ahead.imp id fun ha => ?_,
      fun n hn => ?_⟩, rfl⟩
    · have he : d.ended = true := he
      rw [hended] at he
      cases he
    · intro z more hz hmore
      refine ha z more hz ?_
      rw [hc, ← List.append_assoc]
      exact hmore
    · obtain ⟨-, he, -⟩ := hinv.whole n hn
      rw [hended] at he
      cases he
  | ended =>
    rw [hr] at h
    cases h
    obtain ⟨hc, hw⟩ := Pipe.read_ended hr
    refine ⟨⟨hinv.framing, hinv.compress, hinv.count, fun _ => ⟨hw, hc⟩,
      hinv.ahead.imp id fun ha => ?_, fun n hn => ?_⟩, rfl⟩
    · intro z more hz hmore
      exact ha z more (fun he => by rw [hended] at he; cases he) hmore
    · exact ⟨(hinv.whole n hn).1, rfl, (hinv.whole n hn).2.2⟩
  | empty =>
    rw [hr] at h
    cases h

theorem emit_cases (d : Drain) {record : Bytes} (hne : record ≠ []) (p : Pipe) (o : Outlet) :
    (∃ o', d.emit record p o = ({ d with emitted := d.emitted + 1 }, p, o') ∧
        Effect d.compress o o' [record]) ∨
      ∃ e, d.emit record p o = d.leave (.error e) p o := by
  have hpiece : (encoded d.compress record).isEmpty = false := by
    rw [List.isEmpty_eq_false_iff]
    exact encoded_ne_nil hne
  unfold emit
  rw [show (if d.compress then Gzip.compress record else record) = encoded d.compress record from
    rfl]
  unfold Outlet.write
  rw [hpiece, if_neg Bool.false_ne_true]
  split_ifs with hlimit
  · exact .inr ⟨_, rfl⟩
  · refine .inl ⟨_, rfl, ?_, rfl⟩
    simp [Outlet.written]

/-- A supply without a fault is that of a child that has ended. -/
theorem ended_of_lasting (h : d.supply.lasting = none) : d.ended = true := by
  by_contra hne
  simp [supply, Bool.eq_false_iff.mpr hne] at h

theorem inv_read {x : Bytes} {reader : RecordReader} {count : Nat}
    (h : RecordReader.next ⟨d.supply, d.framing, count⟩ = (.record x, reader))
    (hinv : d.Inv f compress es answered p) {z : Bytes} {more : List Bytes}
    (hz : d.ended = true → z = [])
    (hmore : f.Divides (reader.supply.bytes ++ p.content ++ z) more) :
    f.Divides (d.held ++ p.content ++ z) (x :: more) := by
  obtain ⟨hx, hs | ⟨hpure, hnil, -⟩⟩ := RecordReader.next_record h <;> rw [← hinv.framing]
  · have hs : d.held = x ++ reader.supply.bytes := congrArg Supply.bytes hs
    rw [hs, List.append_assoc, List.append_assoc, ← List.append_assoc reader.supply.bytes]
    exact Framing.Divides.cons (hinv.framing ▸ hmore) hx
  · -- The supply has no fault, so the end of the pipe was met and nothing follows.
    have hended := ended_of_lasting (congrArg Supply.lasting hpure)
    rw [hz hended, (hinv.ended hended).2, List.append_nil, List.append_nil] at hmore ⊢
    exact RecordReader.next_divides h (hinv.framing ▸ hmore)

/-- What holds after a step of a drain, and what the step does: it writes a record at most. -/
def Goes (f : Framing) (compress : Bool) (es : List Bytes) (answered : Bytes) (d' : Drain)
    (p' : Pipe) (o o' : Outlet) : Prop :=
  ∃ more, d'.Inv f compress (es ++ more) answered p' ∧ Effect compress o o' more ∧
    more.length ≤ 1

theorem Goes.still (h : d'.Inv f compress es answered p') (o : Outlet) :
    Goes f compress es answered d' p' o o := by
  refine ⟨[], ?_, effect_nil compress o, Nat.zero_le _⟩
  rw [List.append_nil]
  exact h

theorem goes_emit {x : Bytes} {reader : RecordReader}
    (hn : RecordReader.next ⟨d.supply, d.framing, d.emitted⟩ = (.record x, reader))
    (h : { d with held := reader.supply.bytes }.emit x p o = (d', p', o'))
    (hgoing : d.result? = none) (hinv : d.Inv f compress es answered p) :
    Goes f compress es answered d' p' o o' := by
  have hne := (RecordReader.next_record hn).1.ne_nil
  rcases emit_cases { d with held := reader.supply.bytes } hne p o with ⟨o₁, he, heff⟩ | ⟨e, he⟩ <;>
    rw [he] at h <;> cases h
  · refine ⟨[x], ⟨hinv.framing, hinv.compress, ?_, hinv.ended, hinv.ahead.imp id fun ha => ?_,
      fun n hn => ?_⟩, hinv.compress ▸ heff, Nat.le_refl _⟩
    · rw [List.length_append, ← hinv.count]
      rfl
    · intro z more hz hmore
      rw [List.append_assoc]
      exact ha z _ hz (inv_read hn hinv hz hmore)
    · have hn : d.result? = some (.ok n) := hn
      rw [hgoing] at hn
      cases hn
  · refine .still ?_ o
    exact ⟨hinv.framing, hinv.compress, hinv.count, hinv.ended, .inl ⟨e, rfl⟩,
      fun n hn => by cases hn⟩

theorem inv_return {reader : RecordReader} {count : Nat}
    (hn : RecordReader.next ⟨d.supply, d.framing, count⟩ = (.ended, reader))
    (hgoing : d.result? = none) (hinv : d.Inv f compress es answered p) (o : Outlet) :
    (d.leave (.ok d.emitted) p o).1.Inv f compress es answered
      (d.leave (.ok d.emitted) p o).2.1 := by
  have hs := RecordReader.next_ended hn
  have hheld : d.held = [] := congrArg Supply.bytes hs
  have hended := ended_of_lasting (congrArg Supply.lasting hs)
  refine ⟨hinv.framing, hinv.compress, hinv.count, hinv.ended, .inr ?_, fun n hn => ?_⟩
  · refine hinv.ahead.resolve_left ?_
    rintro ⟨e, he⟩
    rw [hgoing] at he
    cases he
  · cases hn
    exact ⟨hinv.count, hended, hheld⟩

/-- **What a drain has written and what it holds** are the answer of its child. -/
theorem step_inv (h : d.step p o = some (d', p', o')) (hinv : d.Inv f compress es answered p) :
    Goes f compress es answered d' p' o o' := by
  have hgoing := going_of_step h
  obtain ⟨read, reader, hn⟩ : ∃ read reader,
      RecordReader.next ⟨d.supply, d.framing, d.emitted⟩ = (read, reader) := ⟨_, _, rfl⟩
  have hstart : ¬ d.result?.isSome = true := by
    rw [hgoing]
    exact Bool.false_ne_true
  rw [step, if_neg hstart, hn] at h
  cases read with
  | record x => exact goes_emit hn (Option.some.inj h) hgoing hinv
  | ended =>
    cases h
    exact .still (inv_return hn hgoing hinv o) o
  | overflow =>
    cases h
    exact .still (inv_fail hinv o) o
  | failed e =>
    simp only at h
    split at h
    · obtain ⟨hd, rfl⟩ := inv_fill h hinv ‹_›
      exact .still hd o'
    · cases h
      exact .still (inv_fail hinv o) o

/-- **A drain that has returned has divided the answer of its child into records.** -/
theorem Inv.of_ok (h : d.Inv f compress es answered p) {n : Nat} (hr : d.result? = some (.ok n)) :
    n = es.length ∧ f.Divides answered es := by
  obtain ⟨hn, hended, hheld⟩ := h.whole n hr
  have hgood : ¬ d.Fails := by
    rintro ⟨e, he⟩
    rw [hr] at he
    cases he
  have hall := h.ahead.resolve_left hgood [] [] (fun _ => rfl)
  rw [hheld, (h.ended hended).2, List.append_nil, List.append_nil] at hall
  have hdivides := hall (Framing.divides_nil f)
  rw [List.append_nil, List.append_nil] at hdivides
  exact ⟨hn, hdivides⟩

end Drain

end Coprocess
