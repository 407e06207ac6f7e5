import Coprocess.Pipe.Reader
import Coprocess.Pipe.Writer
import Coprocess.Proofs.Text.Lines

/-!
# Bytes between a writer and a reader

* `Pipe.content`, `Writer.backlog`, `LineReader.unread`: what a pipe holds, what a writer has still
  to push out, and what a reader has still to read;
* **`Writer.step_cases`**: a step moves bytes from the front of the backlog to the end of the pipe;
* `filled`, `Behind`: how many of some pieces have bytes, and what is sent but for the last of them;
* `Writer.Trails`: a writer that is about to hold nothing, or lags behind so far at most;
* **`LineReader.readLine_cases`**: a line that is read is the first of what is unread.
-/

namespace Coprocess

theorem toList_extract_rest {α : Type} (xs : Array α) (n : Nat) :
    (xs.extract n xs.size).toList = xs.toList.drop n := by
  rw [Array.toList_extract]
  exact List.take_of_length_le (by simp)

/-! ## Pipes -/

namespace Pipe

/-- The bytes under way. -/
def content (p : Pipe) : Bytes := p.bytes.toList

theorem content_eq_nil_iff {p : Pipe} : p.content = [] ↔ p.bytes.isEmpty = true := by
  simp [content]

@[simp] theorem content_append (p : Pipe) (part : Bytes) :
    { p with bytes := p.bytes ++ part }.content = p.content ++ part := by
  simp [content]

@[simp] theorem content_closeWriter (p : Pipe) : p.closeWriter.content = p.content := rfl

@[simp] theorem content_closeReader (p : Pipe) : p.closeReader.content = p.content := rfl

theorem append_nil (p : Pipe) : { p with bytes := p.bytes ++ ([] : Bytes) } = p := by
  simp

theorem write_moved {p p' : Pipe} {data : Bytes} {count : Nat}
    (h : p.write data = .moved count p') :
    count = (data.take p.room).length ∧ p' = { p with bytes := p.bytes ++ data.take p.room } ∧
      p.readable = true ∧ 0 < p.room := by
  unfold write at h
  split_ifs at h with hr hf
  obtain ⟨rfl, rfl⟩ := by simpa using h
  exact ⟨by simp, rfl, by simpa using hr, by omega⟩

theorem write_full {p : Pipe} {data : Bytes} (h : p.write data = .full) :
    p.readable = true ∧ p.room = 0 := by
  unfold write at h
  split_ifs at h with hr hf
  exact ⟨by simpa using hr, hf⟩

theorem write_broken {p : Pipe} {data : Bytes} (h : p.write data = .broken) :
    p.readable = false := by
  unfold write at h
  split_ifs at h with hr hf
  simpa using hr

theorem read_data {p p' : Pipe} {most : Nat} {bytes : Bytes} (h : p.read most = .data bytes p') :
    p.content = bytes ++ p'.content ∧ p' = { p with bytes := p'.bytes } ∧ p.content ≠ [] ∧
      bytes = p.content.take most := by
  unfold read at h
  split_ifs at h with he hw
  obtain ⟨rfl, rfl⟩ := by simpa using h
  refine ⟨?_, rfl, ?_, ?_⟩
  · rw [content, content, toList_extract_rest, List.take_append_drop]
  · rwa [Ne, content_eq_nil_iff]
  · simp [content]

theorem read_empty {p : Pipe} {most : Nat} (h : p.read most = .empty) :
    p.content = [] ∧ p.writable = true := by
  unfold read at h
  split_ifs at h with he hw
  exact ⟨content_eq_nil_iff.mpr he, hw⟩

theorem read_ended {p : Pipe} {most : Nat} (h : p.read most = .ended) :
    p.content = [] ∧ p.writable = false := by
  unfold read at h
  split_ifs at h with he hw
  exact ⟨content_eq_nil_iff.mpr he, by simpa using hw⟩

end Pipe

/-! ## Writers -/

namespace Writer

/-- The bytes that are still to be pushed out. -/
def backlog (w : Writer) : Bytes :=
  match w.call with
  | .idle => w.held.toList
  | .flushing => w.held.toList
  | .makingRoom data => w.held.toList ++ data
  | .sending data => w.held.toList ++ data

/-- Nothing is held back while bytes go straight into the pipe. -/
def Tidy (w : Writer) : Prop := ∀ data, w.call = .sending data → w.held = #[]

/-- The writer is about to hold nothing. -/
def Emptying (w : Writer) : Prop := w.call = .flushing ∨ w.call = .idle ∧ w.held = #[]

theorem isIdle_iff {w : Writer} : w.isIdle = true ↔ w.call = .idle := by
  unfold isIdle
  split <;> simp_all

theorem backlog_of_idle {w : Writer} (h : w.call = .idle) : w.backlog = w.held.toList := by
  unfold backlog
  rw [h]

theorem tidy_of_idle {w : Writer} (h : w.call = .idle) : w.Tidy := by
  intro data hd
  rw [h] at hd
  cases hd

theorem Emptying.tidy {w : Writer} (h : w.Emptying) : w.Tidy := by
  intro data hd
  rcases h with h | ⟨h, -⟩ <;> rw [h] at hd <;> cases hd

theorem Emptying.backlog_of_idle {w : Writer} (h : w.Emptying) (hi : w.isIdle = true) :
    w.backlog = [] := by
  rw [isIdle_iff] at hi
  rcases h with h | ⟨-, h⟩
  · rw [h] at hi
    cases hi
  · simp [Writer.backlog_of_idle hi, h]

theorem emptying_flush (w : Writer) : w.flush.Emptying := .inl rfl

theorem backlog_flush (w : Writer) : w.flush.backlog = w.held.toList := rfl

theorem backlog_place (w : Writer) (data : Bytes) :
    (w.place data).backlog = w.held.toList ++ data := by
  unfold place
  split_ifs
  · rfl
  · simp [hold, backlog]

theorem tidy_place {w : Writer} {data : Bytes} (h : capacity ≤ data.length → w.held = #[]) :
    (w.place data).Tidy := by
  unfold place
  split_ifs with hc
  · exact fun _ _ => h hc
  · exact tidy_of_idle rfl

theorem backlog_write (w : Writer) (data : Bytes) :
    (w.write data).backlog = w.held.toList ++ data := by
  unfold write
  simp only
  split_ifs
  · simp [hold, backlog]
  · rfl
  · exact backlog_place w data

theorem tidy_write (w : Writer) (data : Bytes) : (w.write data).Tidy := by
  unfold write
  simp only
  split_ifs with h1 h2
  · exact tidy_of_idle rfl
  · intro _ h
    cases h
  · refine tidy_place fun hc => ?_
    have : 0 < capacity := by decide
    exact Array.eq_empty_of_size_eq_zero (by omega)

theorem step_idle {w : Writer} {p : Pipe} (h : w.call = .idle) : w.step p = .moved w p := by
  unfold step
  rw [h]

theorem write_cases (p : Pipe) (data : Bytes) :
    (∃ part : Bytes, part <+: data ∧
        p.write data = .moved part.length { p with bytes := p.bytes ++ part }) ∨
      (p.write data = .full ∧ p.readable = true ∧ p.room = 0) ∨
      (p.write data = .broken ∧ p.readable = false) := by
  cases hw : p.write data with
  | moved count p' =>
    obtain ⟨rfl, rfl, -, -⟩ := Pipe.write_moved hw
    exact .inl ⟨_, List.take_prefix _ _, rfl⟩
  | full => exact .inr (.inl ⟨rfl, Pipe.write_full hw⟩)
  | broken => exact .inr (.inr ⟨rfl, Pipe.write_broken hw⟩)

theorem step_held {w : Writer} (hc : w.call = .flushing ∨ ∃ data, w.call = .makingRoom data)
    (he : w.held.isEmpty = false) (p : Pipe) :
    (∃ (part : Bytes) (held : Array UInt8), w.held.toList = part ++ held.toList ∧
        w.step p = .moved { w with held } { p with bytes := p.bytes ++ part }) ∨
      (w.step p = .blocked ∧ p.readable = true ∧ p.room = 0) ∨
      (w.step p = .broken { w with call := .idle } ∧ p.readable = false) := by
  rcases write_cases p (w.held.extract 0 p.room).toList with ⟨part, hp, hw⟩ | ⟨hw, h⟩ | ⟨hw, h⟩
  · refine .inl ⟨part, w.held.extract part.length w.held.size, ?_, ?_⟩
    · have hp' : part <+: w.held.toList := by
        rw [Array.toList_extract] at hp
        exact hp.trans (List.take_prefix _ _)
      rw [toList_extract_rest]
      exact (List.prefix_iff_eq_append.mp hp').symm
    · rcases hc with hc | ⟨data, hc⟩ <;> simp only [step, hc, he, hw] <;> rfl
  · refine .inr (.inl ⟨?_, h⟩)
    rcases hc with hc | ⟨data, hc⟩ <;> simp only [step, hc, he, hw] <;> rfl
  · refine .inr (.inr ⟨?_, h⟩)
    rcases hc with hc | ⟨data, hc⟩ <;> simp only [step, hc, he, hw] <;> rfl

/-- **What a step of a writer does**: it moves a part of the backlog into the pipe, or something is
left and it waits for room, or nobody can read what it writes. -/
theorem step_cases {w : Writer} (ht : w.Tidy) (p : Pipe) :
    (∃ (w' : Writer) (part : Bytes), w.step p = .moved w' { p with bytes := p.bytes ++ part } ∧
        w'.Tidy ∧ w.backlog = part ++ w'.backlog ∧ (w.Emptying → w'.Emptying)) ∨
      (w.step p = .blocked ∧ w.backlog ≠ [] ∧ p.readable = true ∧ p.room = 0) ∨
      (∃ w', w.step p = .broken w' ∧ w.backlog ≠ [] ∧ p.readable = false ∧ w'.call = .idle ∧
        w'.backlog <+: w.backlog) := by
  cases hc : w.call with
  | idle => exact .inl ⟨w, [], by rw [step_idle hc, Pipe.append_nil], ht, rfl, id⟩
  | sending data =>
    have hn : ¬ w.Emptying := by
      rintro (h | ⟨h, -⟩) <;> rw [hc] at h <;> cases h
    by_cases he : data.isEmpty = true
    · refine .inl ⟨{ w with call := .idle }, [], ?_, tidy_of_idle rfl, ?_, fun h => absurd h hn⟩
      · simp [step, hc, he]
      · simp [backlog, hc, List.isEmpty_iff.mp he]
    · have hb : w.backlog ≠ [] := by
        simp only [backlog, hc]
        exact List.append_ne_nil_of_right_ne_nil _ (by simpa using he)
      rcases write_cases p data with ⟨part, hp, hw⟩ | ⟨hw, h⟩ | ⟨hw, h⟩
      · refine .inl ⟨{ w with call := .sending (data.drop part.length) }, part, ?_,
          fun _ _ => ht data hc, ?_, fun h => absurd h hn⟩
        · simp [step, hc, he, hw]
        · have := List.prefix_iff_eq_append.mp hp
          simp only [backlog, hc, ht data hc]
          simpa using this.symm
      · exact .inr (.inl ⟨by simp [step, hc, he, hw], hb, h⟩)
      · refine .inr (.inr ⟨{ w with call := .idle }, by simp [step, hc, he, hw], hb, h, rfl, ?_⟩)
        simp [backlog, hc]
  | flushing =>
    by_cases he : w.held.isEmpty = true
    · refine .inl ⟨{ w with call := .idle }, [], ?_, tidy_of_idle rfl, ?_, fun _ => ?_⟩
      · simp [step, hc, he]
      · simp [backlog, hc]
      · exact .inr ⟨rfl, by simpa using he⟩
    · have hb : w.backlog ≠ [] := by simpa [backlog, hc] using he
      rcases step_held (.inl hc) (by simpa using he) p with ⟨part, held, e, hs⟩ | ⟨hs, h⟩ | ⟨hs, h⟩
      · refine .inl ⟨{ w with held }, part, hs, ?_, ?_, fun _ => .inl hc⟩
        · exact Emptying.tidy (.inl hc)
        · simpa only [backlog, hc] using e
      · exact .inr (.inl ⟨hs, hb, h⟩)
      · exact .inr (.inr ⟨_, hs, hb, h, rfl, by simp [backlog, hc]⟩)
  | makingRoom data =>
    have hn : ¬ w.Emptying := by
      rintro (h | ⟨h, -⟩) <;> rw [hc] at h <;> cases h
    by_cases he : w.held.isEmpty = true
    · refine .inl ⟨{ w with call := .idle }.place data, [], ?_,
        tidy_place fun _ => by simpa using he, ?_, fun h => absurd h hn⟩
      · simp [step, hc, he]
      · rw [backlog_place]
        simp [backlog, hc]
    · have hb : w.backlog ≠ [] := by
        simp only [backlog, hc]
        exact List.append_ne_nil_of_left_ne_nil (by simpa using he) _
      rcases step_held (.inr ⟨data, hc⟩) (by simpa using he) p with
        ⟨part, held, e, hs⟩ | ⟨hs, h⟩ | ⟨hs, h⟩
      · refine .inl ⟨{ w with held }, part, hs, ?_, ?_, fun h => absurd h hn⟩
        · intro _ h
          rw [hc] at h
          cases h
        · simp only [backlog, hc]
          rw [← List.append_assoc, e]
      · exact .inr (.inl ⟨hs, hb, h⟩)
      · exact .inr (.inr ⟨_, hs, hb, h, rfl, by simp [backlog, hc]⟩)

end Writer

/-! ## Writers that lag behind -/

/-- How many of some pieces have bytes. -/
def filled (parts : List Bytes) : Nat := parts.countP fun part => !part.isEmpty

theorem filled_append (parts more : List Bytes) :
    filled (parts ++ more) = filled parts + filled more := List.countP_append

theorem filled_singleton_le (part : Bytes) : filled [part] ≤ 1 := List.countP_le_length

/-- Of the bytes of `parts`, all are sent but those of the last parts, of which at most `n` have
bytes. -/
def Behind (parts : List Bytes) (sent : Bytes) (n : Nat) : Prop :=
  ∃ front last, parts = front ++ last ∧ front.flatten <+: sent ∧ filled last ≤ n

section

variable {parts : List Bytes} {sent sent' kept : Bytes} {n m : Nat}

theorem Behind.of_all (h : sent = parts.flatten) : Behind parts sent 0 :=
  ⟨parts, [], (List.append_nil parts).symm, h ▸ List.prefix_refl _, Nat.le_refl 0⟩

theorem Behind.mono (h : Behind parts sent n) (hs : sent <+: sent') (hn : n ≤ m) :
    Behind parts sent' m := by
  obtain ⟨front, last, hp, hf, hl⟩ := h
  exact ⟨front, last, hp, hf.trans hs, hl.trans hn⟩

theorem Behind.concat (h : Behind parts sent n) (part : Bytes) :
    Behind (parts ++ [part]) sent (n + filled [part]) := by
  obtain ⟨front, last, rfl, hf, hl⟩ := h
  refine ⟨front, last ++ [part], List.append_assoc .., hf, ?_⟩
  rw [filled_append]
  exact Nat.add_le_add_right hl _

theorem Behind.kept_suffix (h : Behind parts sent n) (hall : sent ++ kept = parts.flatten) :
    ∃ last, last <:+ parts ∧ filled last ≤ n ∧ kept <:+ last.flatten := by
  obtain ⟨front, last, rfl, ⟨more, rfl⟩, hl⟩ := h
  refine ⟨last, ⟨front, rfl⟩, hl, ⟨more, ?_⟩⟩
  rw [List.flatten_append, List.append_assoc] at hall
  exact List.append_cancel_left hall

namespace Writer

variable {w w' : Writer}

/-- The writer is about to hold nothing, or all of `parts` is sent but for the bytes of the last `n`
parts that have some. -/
def Trails (parts : List Bytes) (sent : Bytes) (n : Nat) (w : Writer) : Prop :=
  w.Emptying ∨ Behind parts sent n

theorem Trails.moved (h : w.Trails parts sent n) (hs : sent <+: sent')
    (he : w.Emptying → w'.Emptying) : w'.Trails parts sent' n :=
  h.imp he fun hb => hb.mono hs (Nat.le_refl n)

theorem Trails.of_idle (h : w.Trails parts sent n) (hi : w.call = .idle)
    (hall : sent ++ w.backlog = parts.flatten) : Behind parts sent n := by
  rcases h with he | hb
  · rw [he.backlog_of_idle (isIdle_iff.mpr hi), List.append_nil] at hall
    exact (Behind.of_all hall).mono (List.prefix_refl _) (Nat.zero_le n)
  · exact hb

end Writer

end

/-! ## Readers -/

namespace LineReader

/-- The bytes that are still to be read: a part of a line, what is buffered, and the pipe. -/
def unread (r : LineReader) (p : Pipe) : Bytes := r.line ++ r.buffer ++ p.content

theorem length_unread (r : LineReader) (p : Pipe) :
    (r.unread p).length = r.line.length + (r.buffer.length + p.content.length) := by
  rw [unread, List.length_append, List.length_append, Nat.add_assoc]

theorem unread_of_buffer {r r' : LineReader} {p p' : Pipe} (hl : r'.line = r.line)
    (h : r.buffer ++ p.content = r'.buffer ++ p'.content) : r.unread p = r'.unread p' := by
  rw [unread, unread, hl, List.append_assoc, List.append_assoc, h]

/-- **What a look at the input does**: it moves bytes from the pipe into the buffer, or finds the
end of the input, or waits. -/
theorem fill_cases (r : LineReader) (p : Pipe) :
    (∃ (buffer : Bytes) (bytes : Array UInt8), r.fill p =
        .known true { r with buffer } { p with bytes } ∧ buffer ≠ [] ∧
        r.buffer ++ p.content = buffer ++ bytes.toList) ∨
      (r.fill p = .known false r p ∧ r.buffer = [] ∧ p.content = [] ∧ p.writable = false) ∨
      (r.fill p = .blocked ∧ r.buffer = [] ∧ p.content = [] ∧ p.writable = true) := by
  unfold fill
  by_cases he : r.buffer.isEmpty = true
  · have hb : r.buffer = [] := List.isEmpty_iff.mp he
    rw [if_pos he]
    cases hr : p.read capacity with
    | data bytes p' =>
      obtain ⟨hc, hp, hne, hb'⟩ := Pipe.read_data hr
      refine .inl ⟨bytes, p'.bytes, by rw [← hp], ?_, ?_⟩
      · rw [hb']
        intro e
        rcases List.take_eq_nil_iff.mp e with e | e
        · exact absurd e (by decide)
        · exact hne e
      · rw [hb, List.nil_append, hc]
        rfl
    | empty => exact .inr (.inr ⟨rfl, hb, Pipe.read_empty hr⟩)
    | ended => exact .inr (.inl ⟨rfl, hb, Pipe.read_ended hr⟩)
  · rw [if_neg he]
    exact .inl ⟨r.buffer, p.bytes, rfl, by simpa using he, rfl⟩

/-- **What a step of reading a line does**: it finds the next line, up to a line feed or to the end
of the input, it reads a part of it, it finds that there is none, or it waits. -/
theorem readLine_cases {r : LineReader} (hl : lf ∉ r.line) (p : Pipe) :
    (∃ l r' bytes, r.readLine p = .line l r' { p with bytes } ∧ r'.line = [] ∧ lf ∉ l ∧
        r.line <+: l ∧ r.unread p = l ++ lf :: r'.unread { p with bytes }) ∨
      (∃ r', r.readLine p = .line r.line r' p ∧ r'.line = [] ∧ r.line ≠ [] ∧
        r.unread p = r.line ∧ r'.unread p = [] ∧ p.writable = false) ∨
      (∃ r' bytes, r.readLine p = .partly r' { p with bytes } ∧ lf ∉ r'.line ∧
        r.line.length < r'.line.length ∧ r.unread p = r'.unread { p with bytes }) ∨
      (r.readLine p = .ended r p ∧ r.unread p = [] ∧ p.writable = false) ∨
      (r.readLine p = .blocked ∧ r.buffer = [] ∧ p.content = [] ∧ p.writable = true) := by
  unfold readLine
  rcases fill_cases r p with ⟨buffer, bytes, hf, hne, e⟩ | ⟨hf, hb, hc, hw⟩ | ⟨hf, h⟩
  · have hu : r.unread p = r.line ++ buffer ++ bytes.toList := by
      rw [unread, List.append_assoc, e, List.append_assoc]
    rw [hf]
    simp only
    by_cases hm : lf ∈ buffer
    · obtain ⟨l, t, rfl, hl'⟩ := List.eq_append_cons_of_mem hm
      rw [dropWhile_line hl', takeWhile_line hl']
      refine .inl ⟨_, _, _, rfl, rfl, ?_, List.prefix_append _ _, ?_⟩
      · simp [hl, hl']
      · rw [hu]
        simp [unread, Pipe.content]
    · rw [dropWhile_eq_nil_iff_not_mem.mpr hm]
      refine .inr (.inr (.inl ⟨_, _, rfl, ?_, ?_, ?_⟩))
      · simp [hl, hm]
      · simpa using List.length_pos_iff.mpr hne
      · rw [hu]
        simp [unread, Pipe.content]
  · rw [hf]
    simp only
    by_cases he : r.line.isEmpty = true
    · rw [if_pos he]
      refine .inr (.inr (.inr (.inl ⟨rfl, ?_, hw⟩)))
      simp [unread, List.isEmpty_iff.mp he, hb, hc]
    · rw [if_neg he]
      refine .inr (.inl ⟨_, rfl, rfl, by simpa using he, ?_, ?_, hw⟩) <;> simp [unread, hb, hc]
  · rw [hf]
    exact .inr (.inr (.inr (.inr ⟨rfl, h⟩)))

end LineReader

end Coprocess
