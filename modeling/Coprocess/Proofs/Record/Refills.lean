import Coprocess.Proofs.Record.Division

/-!
# Reading across refills

An input is read through a buffer, which is filled again when it is empty. A line or a number of
bytes may take any number of refills; what is read is the same as if all bytes were there at once.

* `Buffered`: a buffer and the chunks that the source is going to deliver; `Buffered.supply`: all
  bytes that are still to be read;
* `Buffered.cutLine`, `Buffered.take`: a line and a number of bytes, put together from several
  refills; **`Buffered.cutLine_eq`**, **`Buffered.take_eq`**: they are read from the supply;
* `Reading`: what is asked of an input, one after the other; `Framing.reading`: how a record is
  read;
* **`Buffered.reads_eq`**: the records that are read across refills.
-/

namespace Coprocess

/-! ## A buffer and its source -/

/-- A buffer, and what its source is going to deliver. -/
structure Buffered where
  buffer : Bytes := []
  /-- What the reads of the source get, if they ask for as much. A read that gets nothing is the
  end. -/
  chunks : List { c : Bytes // c ≠ [] } := []
  /-- What the first read after the chunks fails with. -/
  fault : Option IoError := none
  /-- What every read after that fails with. -/
  lasting : Option IoError := none

namespace Buffered

/-- How many bytes a buffer holds at most. -/
def capacity : Nat := 8192

/-- The bytes that are still to be read. -/
def rest (b : Buffered) : Bytes := b.buffer ++ b.chunks.unattach.flatten

/-- All that can be read, at once. -/
def supply (b : Buffered) : Supply := ⟨b.rest, b.fault, b.lasting⟩

/-- The chunks that follow when `c` is left of the first one. -/
def leave (c : Bytes) (cs : List { c : Bytes // c ≠ [] }) : List { c : Bytes // c ≠ [] } :=
  if h : c = [] then cs else ⟨c, h⟩ :: cs

/-- A read of the source. -/
def receive (b : Buffered) (most : Nat) : Except IoError Bytes × Buffered :=
  match b.chunks with
  | c :: cs => (.ok (c.1.take most), { b with chunks := leave (c.1.drop most) cs })
  | [] =>
    match b.fault, b.lasting with
    | some e, _ => (.error e, { b with fault := none })
    | none, some e => (.error e, b)
    | none, none => (.ok [], b)

/-- Fills the buffer if it is empty. -/
def fill (b : Buffered) : Except IoError Unit × Buffered :=
  if b.buffer.isEmpty then
    match b.receive capacity with
    | (.ok bytes, b) => (.ok (), { b with buffer := bytes })
    | (.error e, b) => (.error e, b)
  else (.ok (), b)

/-- A read of up to `most` bytes. If it asks for as many as the buffer holds, they go past it. -/
def read (b : Buffered) (most : Nat) : Except IoError Bytes × Buffered :=
  if b.buffer.isEmpty ∧ capacity ≤ most then b.receive most
  else match b.fill with
    | (.ok _, b) => (.ok (b.buffer.take most), { b with buffer := b.buffer.drop most })
    | (.error e, b) => (.error e, b)

variable {b : Buffered}

theorem flatten_leave (c : Bytes) (cs : List { c : Bytes // c ≠ [] }) :
    (leave c cs).unattach.flatten = c ++ cs.unattach.flatten := by
  unfold leave
  split_ifs with h
  · rw [h, List.nil_append]
  · rfl

theorem receive_cases (hb : b.buffer = []) {most : Nat} (hmost : 0 < most) :
    (∃ part chunks, b.receive most = (.ok part, { b with chunks }) ∧ part ≠ [] ∧
        part.length ≤ most ∧ b.rest = part ++ chunks.unattach.flatten) ∨
      (b.rest = [] ∧ b.supply.exhaust = (.ok (), b.supply) ∧ b.receive most = (.ok [], b)) ∨
      (b.rest = [] ∧ ∃ e t, b.supply.exhaust = (.error e, supply t) ∧
        b.receive most = (.error e, t)) := by
  obtain ⟨buffer, chunks, fault, lasting⟩ := b
  obtain rfl : buffer = [] := hb
  cases chunks with
  | cons c cs =>
    refine .inl ⟨c.1.take most, leave (c.1.drop most) cs, rfl, ?_, List.length_take_le _ _, ?_⟩
    · rw [Ne, List.take_eq_nil_iff]
      rintro (h | h)
      · omega
      · exact c.2 h
    · rw [flatten_leave, ← List.append_assoc, List.take_append_drop]
      rfl
  | nil =>
    cases fault with
    | some e => exact .inr (.inr ⟨rfl, e, _, rfl, rfl⟩)
    | none =>
      cases lasting with
      | some e => exact .inr (.inr ⟨rfl, e, _, rfl, rfl⟩)
      | none => exact .inr (.inl ⟨rfl, rfl, rfl⟩)

theorem fill_cases (b : Buffered) :
    (∃ t, b.fill = (.ok (), t) ∧ t.buffer ≠ [] ∧ supply t = b.supply) ∨
      (b.rest = [] ∧ b.supply.exhaust = (.ok (), b.supply) ∧ b.buffer = [] ∧
        b.fill = (.ok (), b)) ∨
      (b.rest = [] ∧ ∃ e t, b.supply.exhaust = (.error e, supply t) ∧ b.fill = (.error e, t)) := by
  unfold fill
  by_cases hb : b.buffer = []
  · rw [if_pos (List.isEmpty_iff.mpr hb)]
    rcases receive_cases hb (show 0 < capacity by decide) with
      ⟨part, chunks, h, hne, -, hrest⟩ | ⟨hrest, he, h⟩ | ⟨hrest, e, t, he, h⟩
    · refine .inl ⟨_, by rw [h], hne, ?_⟩
      rw [supply, supply, hrest]
      rfl
    · refine .inr (.inl ⟨hrest, he, hb, ?_⟩)
      rw [h, ← hb]
    · exact .inr (.inr ⟨hrest, e, t, he, by rw [h]⟩)
  · rw [if_neg fun h => hb (List.isEmpty_iff.mp h)]
    exact .inl ⟨b, rfl, hb, rfl⟩

theorem read_cases (b : Buffered) {most : Nat} (hmost : 0 < most) :
    (∃ part t, b.read most = (.ok part, t) ∧ part ≠ [] ∧ part.length ≤ most ∧
        b.supply = { supply t with bytes := part ++ t.rest }) ∨
      (b.rest = [] ∧ b.supply.exhaust = (.ok (), b.supply) ∧ b.read most = (.ok [], b)) ∨
      (b.rest = [] ∧ ∃ e t, b.supply.exhaust = (.error e, supply t) ∧
        b.read most = (.error e, t)) := by
  unfold read
  by_cases hpast : b.buffer.isEmpty ∧ capacity ≤ most
  · rw [if_pos hpast]
    have hb : b.buffer = [] := List.isEmpty_iff.mp hpast.1
    rcases receive_cases hb hmost with ⟨part, chunks, h, hne, hlen, hrest⟩ | h | h
    · refine .inl ⟨part, _, h, hne, hlen, ?_⟩
      simp only [supply, hrest]
      simp [rest, hb]
    · exact .inr (.inl h)
    · exact .inr (.inr h)
  · rw [if_neg hpast]
    rcases fill_cases b with ⟨t, h, hne, hs⟩ | ⟨hrest, he, hb, h⟩ | ⟨hrest, e, t, he, h⟩
    · refine .inl ⟨_, _, by rw [h], ?_, List.length_take_le _ _, ?_⟩
      · rw [Ne, List.take_eq_nil_iff]
        rintro (h | h)
        · omega
        · exact hne h
      · rw [← hs]
        simp only [supply, rest]
        rw [← List.append_assoc, List.take_append_drop]
    · refine .inr (.inl ⟨hrest, he, ?_⟩)
      rw [h]
      obtain ⟨buffer, chunks, fault, lasting⟩ := b
      obtain rfl : buffer = [] := hb
      simp
    · exact .inr (.inr ⟨hrest, e, t, he, by rw [h]⟩)

theorem exhaust_of_fill_error {t : Buffered} {e : IoError} (h : b.fill = (.error e, t)) :
    b.rest = [] ∧ b.supply.exhaust = (.error e, t.supply) := by
  rcases fill_cases b with ⟨t', h', -⟩ | ⟨-, -, -, h'⟩ | ⟨hrest, e', t', he, h'⟩ <;>
    rw [h'] at h <;> cases h
  exact ⟨hrest, he⟩

theorem exhaust_of_fill_nil {t : Buffered} {u : Unit} (h : b.fill = (.ok u, t))
    (ht : t.buffer = []) : b.rest = [] ∧ b.supply.exhaust = (.ok (), t.supply) := by
  rcases fill_cases b with ⟨t', h', hne, -⟩ | ⟨hrest, he, -, h'⟩ | ⟨-, e', t', -, h'⟩ <;>
    rw [h'] at h <;> cases h
  · exact absurd ht hne
  · exact ⟨hrest, he⟩

theorem supply_of_fill {t : Buffered} {u : Unit} (h : b.fill = (.ok u, t)) :
    t.supply = b.supply := by
  rcases fill_cases b with ⟨t', h', -, hs⟩ | ⟨-, -, -, h'⟩ | ⟨-, e, t', -, h'⟩ <;>
    rw [h'] at h <;> cases h
  · exact hs
  · rfl

theorem rest_of_fill {t : Buffered} {u : Unit} (h : b.fill = (.ok u, t)) : t.rest = b.rest :=
  congrArg Supply.bytes (supply_of_fill h)

/-! ### Lines and numbers of bytes -/

/-- Reads up to and including a line feed, or to the end, after the bytes `read`. -/
def cutLine (read : Bytes) (b : Buffered) : Except IoError Bytes × Buffered :=
  match _h : b.fill with
  | (.error e, t) => (.error e, t)
  | (.ok _, t) =>
    match t.buffer.dropWhile (· ≠ lf) with
    | _ :: rest => (.ok (read ++ (t.buffer.takeWhile (· ≠ lf) ++ [lf])), { t with buffer := rest })
    | [] =>
      if t.buffer = [] then (.ok read, t) else cutLine (read ++ t.buffer) { t with buffer := [] }
termination_by b.rest.length
decreasing_by
  rename_i hne
  rw [← rest_of_fill _h, rest, rest, List.length_append, List.length_append, List.length_nil]
  have := List.length_pos_iff.mpr hne
  dsimp only
  omega

/-- Reads `n` bytes after the bytes `read`; `none` when the input ends before. -/
def take (read : Bytes) (b : Buffered) (n : Nat) : Except IoError (Option Bytes) × Buffered :=
  if _h : n = 0 then (.ok (some read), b)
  else match b.read n with
    | (.error e, t) => (.error e, t)
    | (.ok [], t) => (.ok none, t)
    | (.ok (byte :: part), t) => t.take (read ++ byte :: part) (n - (part.length + 1))
termination_by n

end Buffered

namespace Supply

variable {fault lasting : Option IoError}

theorem cutLine_line_append {l : Bytes} (hl : lf ∉ l) (s : Bytes) :
    cutLine ⟨l ++ lf :: s, fault, lasting⟩ = (.ok (l ++ [lf]), ⟨s, fault, lasting⟩) := by
  simpa [prepend] using cutLine_prepend hl ⟨s, fault, lasting⟩

theorem bytes_of_cutLine {s t : Supply} {line : Bytes} (h : s.cutLine = (.ok line, t)) :
    s.bytes = line ++ t.bytes := by
  rcases s.cutLine_cases with ⟨l, u, -, hs, hl⟩ | ⟨-, -, hl⟩ | ⟨e, u, -, hl⟩ <;> rw [h] at hl <;>
    cases hl
  · rw [hs, prepend_bytes]
  · exact (List.append_nil _).symm

theorem cutLine_exhaust {s : Supply} (hs : lf ∉ s.bytes) :
    s.cutLine = (s.exhaust.1.map fun _ => s.bytes, s.exhaust.2) := by
  obtain ⟨bytes, fault, lasting⟩ := s
  have hlast : ¬ bytes.getLast? = some lf := fun he => hs (List.mem_of_getLast? he)
  simp only [cutLine, Coprocess.cutLine_rest hs, if_neg hlast]
  cases fault <;> cases lasting <;> rfl

theorem cutLine_append {l : Bytes} (hl : lf ∉ l) (s : Bytes) :
    cutLine ⟨l ++ s, fault, lasting⟩ =
      ((cutLine ⟨s, fault, lasting⟩).1.map (l ++ ·), (cutLine ⟨s, fault, lasting⟩).2) := by
  by_cases hs : lf ∈ s
  · obtain ⟨m, t, rfl, hm⟩ := List.eq_append_cons_of_mem hs
    rw [← List.append_assoc, cutLine_line_append (by simp [hl, hm]), cutLine_line_append hm,
      List.append_assoc]
    rfl
  · rw [cutLine_exhaust (s := ⟨s, fault, lasting⟩) hs, cutLine_exhaust (by simp [hl, hs])]
    cases fault <;> cases lasting <;> rfl

theorem take_zero (s : Supply) : s.take 0 = (.ok (some []), s) := by
  simp [take]

theorem take_exhaust {s : Supply} (hs : s.bytes = []) {n : Nat} (hn : 0 < n) :
    s.take n = (s.exhaust.1.map fun _ => none, s.exhaust.2) := by
  obtain ⟨bytes, fault, lasting⟩ := s
  obtain rfl : bytes = [] := hs
  have h : ¬ ([] : Bytes).length = n := fun h => Nat.ne_of_lt hn h
  simp only [take, List.take_nil, if_neg h]
  cases fault <;> cases lasting <;> rfl

theorem take_append {part : Bytes} {n : Nat} (hn : part.length ≤ n) (s : Bytes) :
    take ⟨part ++ s, fault, lasting⟩ n =
      ((take ⟨s, fault, lasting⟩ (n - part.length)).1.map (Option.map (part ++ ·)),
        (take ⟨s, fault, lasting⟩ (n - part.length)).2) := by
  obtain ⟨k, rfl⟩ := Nat.exists_eq_add_of_le hn
  rw [Nat.add_sub_cancel_left]
  simp only [take, List.take_length_add_append, List.drop_length_add_append, List.length_append,
    Nat.add_left_cancel_iff]
  split_ifs
  · rfl
  · cases fault <;> cases lasting <;> rfl

end Supply

namespace Buffered

variable {b : Buffered}

theorem cutLine_of_rest_nil (h : b.rest = []) :
    b.supply.cutLine = (b.supply.exhaust.1.map fun _ => [], b.supply.exhaust.2) := by
  have hbytes : b.supply.bytes = [] := h
  rw [Supply.cutLine_exhaust (by rw [hbytes]; exact List.not_mem_nil), hbytes]

/-- **A line that is read across refills is read from the supply.** -/
theorem cutLine_eq (read : Bytes) (b : Buffered) :
    ((b.cutLine read).1, (b.cutLine read).2.supply) =
      (b.supply.cutLine.1.map (read ++ ·), b.supply.cutLine.2) := by
  fun_induction cutLine read b with
  | case1 read b e t h =>
    obtain ⟨hrest, he⟩ := exhaust_of_fill_error h
    rw [cutLine_of_rest_nil hrest, he]
    rfl
  | case2 read b u t h _ rest hd =>
    have hmem : lf ∈ t.buffer := by
      by_contra hnot
      rw [dropWhile_eq_nil_iff_not_mem.mpr hnot] at hd
      cases hd
    obtain ⟨l, more, hbuffer, hl⟩ := List.eq_append_cons_of_mem hmem
    rw [hbuffer, dropWhile_line hl] at hd
    obtain rfl := (List.cons.inj hd).2
    have hs : b.supply = ⟨l ++ lf :: (more ++ t.chunks.unattach.flatten), t.fault, t.lasting⟩ := by
      rw [← supply_of_fill h, supply, Buffered.rest, hbuffer]
      simp
    rw [hs, Supply.cutLine_line_append hl, hbuffer, takeWhile_line hl]
    rfl
  | case3 read b u t h hd he =>
    obtain ⟨hrest, hend⟩ := exhaust_of_fill_nil h he
    rw [cutLine_of_rest_nil hrest, hend]
    simp [Except.map]
  | case4 read b u t h hd he ih =>
    have hs : b.supply = ⟨t.buffer ++ t.chunks.unattach.flatten, t.fault, t.lasting⟩ :=
      (supply_of_fill h).symm
    rw [ih, hs, Supply.cutLine_append (dropWhile_eq_nil_iff_not_mem.mp hd)]
    simp only [supply, Buffered.rest, List.nil_append]
    cases (Supply.cutLine ⟨t.chunks.unattach.flatten, t.fault, t.lasting⟩).1 <;>
      simp [Except.map]

/-- **A number of bytes that is read across refills is read from the supply.** -/
theorem take_eq (read : Bytes) (b : Buffered) (n : Nat) :
    ((b.take read n).1, (b.take read n).2.supply) =
      ((b.supply.take n).1.map (Option.map (read ++ ·)), (b.supply.take n).2) := by
  fun_induction take read b n with
  | case1 read b =>
    rw [Supply.take_zero]
    simp [Except.map]
  | case2 read b n hn e t h =>
    rcases read_cases b (Nat.pos_of_ne_zero hn) with
      ⟨part, t', h', -⟩ | ⟨-, -, h'⟩ | ⟨hrest, e', t', he, h'⟩ <;> rw [h'] at h <;> cases h
    rw [Supply.take_exhaust hrest (Nat.pos_of_ne_zero hn), he]
    rfl
  | case3 read b n hn t h =>
    rcases read_cases b (Nat.pos_of_ne_zero hn) with
      ⟨part, t', h', hne, -⟩ | ⟨hrest, he, h'⟩ | ⟨-, e', t', -, h'⟩ <;> rw [h'] at h <;> cases h
    · exact absurd rfl hne
    · rw [Supply.take_exhaust hrest (Nat.pos_of_ne_zero hn), he]
      rfl
  | case4 read b n hn byte part t h ih =>
    rcases read_cases b (Nat.pos_of_ne_zero hn) with
      ⟨part', t', h', -, hlen, hs⟩ | ⟨-, -, h'⟩ | ⟨-, e', t', -, h'⟩ <;> rw [h'] at h <;> cases h
    rw [ih, hs, Supply.take_append hlen]
    simp only [supply, List.length_cons]
    cases (Supply.take ⟨t.rest, t.fault, t.lasting⟩ (n - (part.length + 1))).1 <;>
      simp [Except.map, Function.comp_def]

end Buffered

/-! ## Records -/

/-- What is asked of an input, one after the other, until there is a result. -/
inductive Reading (α : Type)
  | done (a : α)
  | line (next : Except IoError Bytes → Reading α)
  | bytes (n : Nat) (next : Except IoError (Option Bytes) → Reading α)

namespace Reading

variable {α : Type}

/-- Asks a supply. -/
def run : Reading α → Supply → α × Supply
  | done a, s => (a, s)
  | line next, s => (next s.cutLine.1).run s.cutLine.2
  | bytes n next, s => (next (s.take n).1).run (s.take n).2

/-- Asks an input that is read through a buffer. -/
def runBuffered : Reading α → Buffered → α × Buffered
  | done a, b => (a, b)
  | line next, b => (next (b.cutLine []).1).runBuffered (b.cutLine []).2
  | bytes n next, b => (next (b.take [] n).1).runBuffered (b.take [] n).2

/-- **Across refills the answers are those of the supply.** -/
theorem runBuffered_eq (r : Reading α) (b : Buffered) :
    ((r.runBuffered b).1, (r.runBuffered b).2.supply) = r.run b.supply := by
  induction r generalizing b with
  | done a => rfl
  | line next ih =>
    obtain ⟨hline, hsupply⟩ := Prod.mk.inj (Buffered.cutLine_eq [] b)
    have hread : (b.cutLine []).1 = b.supply.cutLine.1 := by
      rw [hline]
      cases b.supply.cutLine.1 <;> rfl
    rw [runBuffered, run, ih, hread, hsupply]
  | bytes n next ih =>
    obtain ⟨hbytes, hsupply⟩ := Prod.mk.inj (Buffered.take_eq [] b n)
    have hread : (b.take [] n).1 = (b.supply.take n).1 := by
      rw [hbytes]
      rcases (b.supply.take n).1 with e | (_ | part) <;> rfl
    rw [runBuffered, run, ih, hread, hsupply]

end Reading

namespace Record

/-- How a line is read. -/
def lineReading : Reading RecordRead :=
  .line fun
    | .error e => .done (.failed (.io e))
    | .ok [] => .done .ended
    | .ok line => .done (.record (if line.getLast? = some lf then line else line ++ [lf]))

/-- How headers are read after `head`, and then what follows them. -/
def headersReading (unit : Nat) (content : Array UInt8 → Nat → Reading RecordRead) :
    Nat → Array UInt8 → Option Nat → Reading RecordRead
  | 0, _, _ => .done (.failed (.malformed unit .endInHeader))
  | fuel + 1, head, length =>
    .line fun
      | .error e => .done (.failed (.io e))
      | .ok [] => .done (.failed (.malformed unit .endInHeader))
      | .ok raw =>
        if (headerLine raw).isEmpty then
          match length with
          | some n => content (head ++ raw) n
          | none => .done (.failed (.malformed unit .noLength))
        else match lengthValue? (headerLine raw) with
          | none => headersReading unit content fuel (head ++ raw) length
          | some value =>
            if length.isSome then .done (.failed (.malformed unit .twoLengths))
            else match parseLength value with
              | some n => headersReading unit content fuel (head ++ raw) (some n)
              | none => .done (.failed (.malformed unit (.badLength (headerLine raw))))

/-- How the content of a record is read after its headers, and what closes it. -/
def contentReading (unit : Nat) (head : Array UInt8) (length : Nat) : Reading RecordRead :=
  if sizeLimit < head.size + length + recordEnd.length then .done .overflow
  else
    let short := RecordRead.failed (.malformed unit (.endInContent length))
    .bytes (length + recordEnd.length) fun
      | .error e => .done (if endsEarly e then short else .failed (.io e))
      | .ok none => .done short
      | .ok (some content) =>
        .done (if content.drop length = recordEnd then .record (head ++ content).toList
          else .failed (.malformed unit .missingRecordEnd))

/-- How a WARC record is read of `size` bytes. -/
def warcReading (unit size : Nat) : Reading RecordRead :=
  .line fun
    | .error e => .done (.failed (.io e))
    | .ok [] => .done .ended
    | .ok first =>
      if headerLine first ≠ versionLine then
        .done (.failed (.malformed unit (.version (headerLine first))))
      else headersReading unit (contentReading unit) (size - first.length + 1) first.toArray none

theorem run_lineReading (s : Supply) : lineReading.run s = readLine s := by
  obtain ⟨line, t, hc⟩ : ∃ line t, s.cutLine = (line, t) := ⟨_, _, rfl⟩
  simp only [lineReading, Reading.run, readLine, hc]
  rcases line with e | (_ | ⟨b, line⟩) <;> rfl

theorem run_headersReading (unit : Nat) (content : Array UInt8 → Nat → Reading RecordRead)
    (fuel : Nat) (head : Array UInt8) (found : Option Nat) (s : Supply) :
    (headersReading unit content fuel head found).run s =
      match readHeaders unit fuel head found s with
      | .complete head n t => (content head n).run t
      | .failed failure t => (.failed failure, t) := by
  induction fuel generalizing head found s with
  | zero => rfl
  | succ fuel ih =>
    obtain ⟨line, t, hc⟩ : ∃ line t, s.cutLine = (line, t) := ⟨_, _, rfl⟩
    simp only [headersReading, Reading.run, readHeaders, hc]
    rcases line with e | (_ | ⟨b, raw⟩)
    · rfl
    · rfl
    · by_cases htext : (headerLine (b :: raw)).isEmpty = true
      · simp only [if_pos htext]
        cases found <;> rfl
      · simp only [if_neg htext]
        cases hv : lengthValue? (headerLine (b :: raw)) with
        | none => exact ih _ _ t
        | some value =>
          cases found with
          | some m => rfl
          | none =>
            cases hm : parseLength value with
            | none => simp [hm, Reading.run]
            | some m => simpa [hm] using ih _ (some m) t

theorem run_contentReading (unit : Nat) (head : Array UInt8) (n : Nat) (s : Supply) :
    (contentReading unit head n).run s = readContent unit head n s := by
  unfold contentReading readContent
  by_cases hsize : sizeLimit < head.size + n + recordEnd.length
  · rw [if_pos hsize, if_pos hsize]
    rfl
  · rw [if_neg hsize, if_neg hsize]
    obtain ⟨part, t, hc⟩ : ∃ part t, s.take (n + recordEnd.length) = (part, t) := ⟨_, _, rfl⟩
    simp only [Reading.run, hc]
    rcases part with e | (_ | content)
    · rfl
    · rfl
    · by_cases hend : content.drop n = recordEnd
      · simp only [if_pos hend, Reading.run]
      · simp only [if_neg hend, Reading.run]

theorem run_warcReading (unit : Nat) (s : Supply) :
    (warcReading unit s.bytes.length).run s = readWarc unit s := by
  obtain ⟨first, t, hc⟩ : ∃ first t, s.cutLine = (first, t) := ⟨_, _, rfl⟩
  simp only [warcReading, Reading.run, readWarc, hc]
  rcases first with e | (_ | ⟨b, first⟩)
  · rfl
  · rfl
  · have hsize : s.bytes.length - (b :: first).length = t.bytes.length := by
      rw [Supply.bytes_of_cutLine hc, List.length_append, Nat.add_sub_cancel_left]
    by_cases hv : headerLine (b :: first) ≠ versionLine
    · simp only [if_pos hv, Reading.run]
    · simp only [if_neg hv, run_headersReading, hsize, run_contentReading]
      cases readHeaders unit (t.bytes.length + 1) (b :: first).toArray none t <;> rfl

end Record

/-- How a record is read, as unit number `unit`, of `size` bytes. -/
def Framing.reading (framing : Framing) (unit size : Nat) : Reading RecordRead :=
  match framing with
  | .warc => Record.warcReading unit size
  | .lines => Record.lineReading

/-- How many records a reading gives. -/
def RecordRead.size : RecordRead → Nat
  | .record _ => 1
  | _ => 0

theorem RecordReader.next_of_run {framing : Framing} {count : Nat} {s t : Supply}
    {read : RecordRead} (h : (framing.reading (count + 1) s.bytes.length).run s = (read, t)) :
    next ⟨s, framing, count⟩ = (read, ⟨t, framing, count + read.size⟩) := by
  cases framing with
  | warc =>
    rw [Framing.reading, Record.run_warcReading] at h
    simp only [next, h]
    cases read <;> rfl
  | lines =>
    rw [Framing.reading, Record.run_lineReading] at h
    simp only [next, h]
    cases read <;> rfl

namespace Buffered

/-- What reading so many times comes to, after `count` records. -/
def reads (framing : Framing) : Nat → Nat → Buffered → List RecordRead
  | 0, _, _ => []
  | n + 1, count, b =>
    let (read, b) := (framing.reading (count + 1) b.rest.length).runBuffered b
    read :: reads framing n (count + read.size) b

/-- **Records that are read across refills are read from the supply.** -/
theorem reads_eq (framing : Framing) (n count : Nat) (b : Buffered) :
    b.reads framing n count = (RecordReader.reads n ⟨b.supply, framing, count⟩).1 := by
  induction n generalizing count b with
  | zero => rfl
  | succ n ih =>
    obtain ⟨read, t, hb⟩ : ∃ read t,
        (framing.reading (count + 1) b.rest.length).runBuffered b = (read, t) := ⟨_, _, rfl⟩
    have hrun := Reading.runBuffered_eq (framing.reading (count + 1) b.rest.length) b
    rw [hb] at hrun
    have hnext : RecordReader.next ⟨b.supply, framing, count⟩ =
        (read, ⟨t.supply, framing, count + read.size⟩) := RecordReader.next_of_run hrun.symm
    rw [reads, hb, RecordReader.reads, hnext, ← ih]

end Buffered

end Coprocess
