import Coprocess.Proofs.Pipeline.Diagnosis

/-!
# A malformed line harms only itself

A source of documents or of text to wrap can be asked for more after a malformed line. Each call
takes one line and judges it by itself.

* `Source.call`, `Source.after`, `Source.answer`: calls to a source, which go on behind an error and
  behind the end of the input;
* `Source.Kind.judge`: what a line comes to by itself;
* `Precedes`: a line that stands first in some bytes, with its line feed if it has one;
* `Source.call_cases`: a call takes the line that stands first, or there is none;
* `Source.after_spec`, `Source.answer_eq`: where a source stands after some calls, and what it
  answers then;
* **`Source.malformed_alone`**: the answer to a call depends on one line and its number.
-/

namespace Coprocess

/-! ## The line that stands first -/

/-- The line stands first in the input, and `rest` follows its line feed; the last line may do
without one, unless it is empty. -/
def Precedes (line rest input : Bytes) : Prop :=
  input = line ++ lf :: rest ∨ input = line ∧ line ≠ [] ∧ rest = []

section

variable {line rest input : Bytes}

theorem lines_of_precedes (hl : lf ∉ line) (h : Precedes line rest input) :
    lines input = line :: lines rest := by
  rcases h with rfl | ⟨rfl, hne, rfl⟩
  · exact lines_line hl rest
  · rw [lines_rest hl hne, lines_nil]

theorem nextLine?_cases (input : Bytes) :
    input = [] ∧ nextLine? input = none ∨
      ∃ line rest, lf ∉ line ∧ Precedes line rest input ∧ nextLine? input = some (line, rest) := by
  induction input using line_induction with
  | nil => exact .inl ⟨rfl, rfl⟩
  | rest l hl hne => exact .inr ⟨l, [], hl, .inr ⟨rfl, hne, rfl⟩, nextLine?_rest hl hne⟩
  | line l s hl _ => exact .inr ⟨l, s, hl, .inl rfl, nextLine?_line hl s⟩

end

namespace Source

/-! ## Calls -/

/-- A call to a source: the answer, which is none at the end of the input, and the source after
it. -/
def call (s : Source) : Option (Except Failure Parcel) × Source :=
  match s.next with
  | none => (none, s)
  | some (result, s') => (some result, s')

/-- The source after so many calls. -/
def after (s : Source) : Nat → Source
  | 0 => s
  | n + 1 => (s.after n).call.2

/-- The answer to the call before which there were `n` others. -/
def answer (s : Source) (n : Nat) : Option (Except Failure Parcel) := (s.after n).call.1

/-- What the line that is unit number `unit` comes to by itself. -/
def Kind.judge (kind : Kind) (unit : Nat) (line : Bytes) : Except Failure Parcel :=
  (describe kind [] unit line).1

section

variable {kind : Kind} {s : Source}

theorem describe_eq_judge (hk : kind.Sends) (keys : List Bytes) (unit : Nat) (line : Bytes) :
    describe kind keys unit line = (kind.judge unit line, keys) := by
  cases kind with
  | document =>
    simp only [Kind.judge, describe]
    cases Base64.decode line <;> rfl
  | fold options =>
    simp only [Kind.judge, describe]
    cases Utf8.decode line <;> rfl
  | cache key => exact hk.elim

theorem judge_eq_error {unit : Nat} {line : Bytes} {failure : Failure}
    (h : kind.judge unit line = .error failure) :
    ∃ flaw, kind.flaw? line = some flaw ∧ failure = .malformed unit flaw := by
  rw [Kind.judge] at h
  rcases describe_by_flaw kind [] unit line with ⟨flaw, hflaw, he⟩ | ⟨-, p, keys, he⟩
  · rw [he] at h
    cases h
    exact ⟨flaw, hflaw, rfl⟩
  · rw [he] at h
    cases h

theorem call_of_input_eq_nil (h : s.input = []) : s.call = (none, s) := by
  simp only [call, next, h]
  rfl

/-- **A call takes the line that stands first**, and judges it by itself, if there is one. -/
theorem call_cases (hk : s.kind.Sends) :
    s.input = [] ∨
      ∃ line rest, lf ∉ line ∧ Precedes line rest s.input ∧
        s.call = (some (s.kind.judge (s.read + 1) line),
          { s with input := rest, read := s.read + 1 }) := by
  rcases nextLine?_cases s.input with ⟨hnil, hn⟩ | ⟨line, rest, hl, hpre, hn⟩
  · exact .inl hnil
  · exact .inr ⟨line, rest, hl, hpre, by simp only [call, next, hn, describe_eq_judge hk]⟩

theorem after_spec (hk : s.kind.Sends) (n : Nat) :
    (s.after n).kind = s.kind ∧ (s.after n).read = s.read + min n (lines s.input).length ∧
      lines (s.after n).input = (lines s.input).drop n := by
  induction n with
  | zero => exact ⟨rfl, by simp [after], rfl⟩
  | succ n ih =>
    obtain ⟨hkind, hread, hlines⟩ := ih
    rw [after]
    rcases call_cases (hkind ▸ hk) with hnil | ⟨line, rest, hl, hpre, hcall⟩
    · have hlen : (lines s.input).length ≤ n := by
        rw [hnil, lines_nil] at hlines
        exact List.drop_eq_nil_iff.mp hlines.symm
      rw [call_of_input_eq_nil hnil]
      refine ⟨hkind, ?_, ?_⟩
      · rw [hread, Nat.min_eq_right hlen, Nat.min_eq_right (Nat.le_succ_of_le hlen)]
      · rw [hlines, List.drop_of_length_le hlen, List.drop_of_length_le (Nat.le_succ_of_le hlen)]
    · have hdrop : (lines s.input).drop n = line :: lines rest :=
        hlines.symm.trans (lines_of_precedes hl hpre)
      have hlen : n < (lines s.input).length := by
        by_contra hle
        rw [List.drop_of_length_le (Nat.le_of_not_lt hle)] at hdrop
        cases hdrop
      rw [hcall]
      refine ⟨hkind, ?_, ?_⟩
      · rw [hread, Nat.min_eq_left (Nat.le_of_lt hlen), Nat.min_eq_left hlen, Nat.add_assoc]
      · rw [← List.tail_drop, hdrop, List.tail_cons]

theorem precedes_after (hk : s.kind.Sends) {n : Nat} {line : Bytes}
    (h : (lines s.input)[n]? = some line) :
    Precedes line (s.after (n + 1)).input (s.after n).input ∧
      s.answer n = some (s.kind.judge (s.read + n + 1) line) := by
  obtain ⟨hkind, hread, hlines⟩ := after_spec hk n
  have hhead : (lines (s.after n).input)[0]? = some line := by
    rw [hlines, List.getElem?_drop, Nat.add_zero, h]
  rw [answer, after]
  rcases call_cases (hkind ▸ hk) with hnil | ⟨line', rest, hl, hpre, hcall⟩
  · rw [hnil, lines_nil] at hhead
    cases hhead
  · rw [lines_of_precedes hl hpre] at hhead
    cases hhead
    have hlen : n < (lines s.input).length := (List.getElem?_eq_some_iff.mp h).1
    rw [hcall, hkind, hread, Nat.min_eq_left (Nat.le_of_lt hlen)]
    exact ⟨hpre, rfl⟩

theorem after_input_eq_nil_iff (hk : s.kind.Sends) (n : Nat) :
    (s.after n).input = [] ↔ (lines s.input).length ≤ n := by
  rw [← lines_eq_nil_iff, (after_spec hk n).2.2, List.drop_eq_nil_iff]

/-- **The answer to a call** is what the line with its number comes to by itself. -/
theorem answer_eq (hk : s.kind.Sends) (n : Nat) :
    s.answer n = (lines s.input)[n]?.map (s.kind.judge (s.read + n + 1)) := by
  cases h : (lines s.input)[n]? with
  | some line => exact (precedes_after hk h).2
  | none =>
    have hnil := (after_input_eq_nil_iff hk n).mpr (List.getElem?_eq_none_iff.mp h)
    rw [answer, call_of_input_eq_nil hnil]
    rfl

theorem after_of_input_eq_nil {k j : Nat} (h : (s.after k).input = []) (hj : k ≤ j) :
    s.after j = s.after k := by
  induction j, hj using Nat.le_induction with
  | base => rfl
  | succ j _ ih => rw [after, ih, call_of_input_eq_nil h]

end

/-- **A malformed line harms only itself.** Let a source of documents or of text to wrap be called
again and again, whatever it answers.

* The call before which there were `k` others takes the line with that index off the input, with its
  line feed, and nothing else. Its answer is what this line comes to as unit number `k + 1`; an
  error tells what is wrong with this line, under this number.
* Other lines do not matter for an answer: two inputs that have the same line at an index have the
  same answer there. So if one line is replaced by whatever other line, the answers to all other
  calls stay.
* None is answered exactly when all lines are taken, and then by every later call, which leaves the
  source as it is. -/
theorem malformed_alone {kind : Kind} (hk : kind.Sends) (input : Bytes) :
    let source (input : Bytes) : Source := { kind, input }
    (∀ k line, (lines input)[k]? = some line →
      Precedes line ((source input).after (k + 1)).input ((source input).after k).input ∧
      (source input).answer k = some (kind.judge (k + 1) line) ∧
      ∀ failure, kind.judge (k + 1) line = .error failure →
        ∃ flaw, kind.flaw? line = some flaw ∧ failure = .malformed (k + 1) flaw) ∧
    (∀ other j, (lines other)[j]? = (lines input)[j]? →
      (source other).answer j = (source input).answer j) ∧
    (∀ other k line, lines other = (lines input).set k line →
      ∀ j, j ≠ k → (source other).answer j = (source input).answer j) ∧
    ∀ k, (((source input).after k).input = [] ↔ (lines input).length ≤ k) ∧
      ((source input).answer k = none ↔ (lines input).length ≤ k) ∧
      ((source input).answer k = none → ∀ j, k ≤ j →
        (source input).answer j = none ∧ (source input).after j = (source input).after k) := by
  intro source
  have hanswer (input : Bytes) (k : Nat) :
      (source input).answer k = (lines input)[k]?.map (kind.judge (k + 1)) := by
    rw [answer_eq hk, Nat.zero_add]
  have hnone (k : Nat) : (source input).answer k = none ↔ (lines input).length ≤ k := by
    rw [hanswer, Option.map_eq_none_iff, List.getElem?_eq_none_iff]
  have hagree (other : Bytes) (j : Nat) (h : (lines other)[j]? = (lines input)[j]?) :
      (source other).answer j = (source input).answer j := by
    rw [hanswer, hanswer, h]
  have hend (k : Nat) := after_input_eq_nil_iff (s := source input) hk k
  refine ⟨fun k line h => ⟨(precedes_after hk h).1, ?_, fun failure => judge_eq_error⟩, hagree,
    fun other k line h j hj => hagree other j ?_,
    fun k => ⟨hend k, hnone k, fun hk' j hj => ?_⟩⟩
  · rw [hanswer, h, Option.map_some]
  · rw [h, List.getElem?_set_ne hj.symm]
  · have hlen := (hnone k).mp hk'
    exact ⟨(hnone j).mpr (hlen.trans hj), after_of_input_eq_nil ((hend k).mpr hlen) hj⟩

/-- A line that is no base64 between a document and an empty line: whatever stands in its place, the
empty line is the third document. -/
theorem malformed_alone_between :
    let source (middle : Bytes) : Source :=
      { kind := .document, input := [89, 81, 61, 61, lf] ++ middle ++ [lf, lf] }
    Kind.document.Sends ∧
      (source [64]).answer 1 = some (.error (.malformed 2 (.base64 (.symbol 64 0)))) ∧
      (source [64]).answer 2 = some (.ok (describeDocument [])) ∧
      (source [64]).answer 3 = none ∧
      ∀ middle : Bytes, lf ∉ middle → (source middle).answer 2 = (source [64]).answer 2 := by
  intro source
  have hlines (middle : Bytes) (h : lf ∉ middle) :
      lines (source middle).input = [[89, 81, 61, 61], middle, []] := by
    have hinput : (source middle).input =
        [89, 81, 61, 61] ++ lf :: (middle ++ lf :: ([] ++ lf :: [])) := by
      simp [source]
    rw [hinput, lines_line (by decide), lines_line h, lines_line (by decide), lines_nil]
  have hbad := hlines [64] (by decide)
  have hk : Kind.document.Sends := trivial
  obtain ⟨htaken, -, hreplaced, hend⟩ := malformed_alone hk (source [64]).input
  refine ⟨hk, (htaken 1 [64] (by rw [hbad]; rfl)).2.1, (htaken 2 [] (by rw [hbad]; rfl)).2.1,
    (hend 3).2.1.mpr (by rw [hbad]; rfl), fun middle h => ?_⟩
  exact hreplaced (source middle).input 1 middle (by rw [hlines middle h, hbad]; rfl) 2 (by decide)

end Source

end Coprocess
