import Coprocess.Options.Invocation
import Mathlib.Tactic.SplitIfs

/-!
# Command lines of programs

The first word that neither is an option nor belongs to one is the program, and from there on no
word is looked at.

* `Word.of_eq_plain`: what does not start with a hyphen is no option;
* `Scan.words_command`: the tool itself reads up to the word for a command;
* **`Scan.words_append`**: what stands behind the options of a command is its program, whatever it
  looks like;
* `CommandName.tool?`: what a command does when no option is given;
* `Invocation.parseCommand_append`: the words of the program have no part in what else a command
  comes to;
* **`Invocation.program_verbatim`**: a command and a program without options between them.
-/

namespace Coprocess

theorem Word.of_eq_plain {w : Bytes} (h : w.head? ≠ some hyphen) : Word.of w = .plain := by
  cases w with
  | nil => rfl
  | cons b w =>
    have hb : b ≠ 45 := fun e => h (congrArg some e)
    unfold Word.of
    split <;> simp_all

namespace CommandName

theorem ofWord?_word (name : CommandName) : ofWord? (Bytes.ofString name.word) = some name := by
  cases name <;> decide +kernel

theorem word_ne_helpWord (name : CommandName) : Bytes.ofString name.word ≠ helpWord := by
  cases name <;> decide +kernel

/-- What a command does when none of its options is given; completions run no program. -/
def tool? : CommandName → Option Tool
  | wrapDoc => some (.documents ⟨4096, none⟩)
  | wrapFold => some (.fold ⟨80, [':', ',', ' ', '-', '.', '/'], true⟩ ⟨4096, none⟩)
  | wrapCache => some (.cache ⟨none, 9⟩ ⟨4096, none⟩)
  | wrapPool => some (.pool [] none false .warc ⟨4096, none⟩)
  | completions => none

end CommandName

/-! ## Reading up to a program -/

namespace Scan

variable {l : Level} {s t : Scan} {program : Bytes}

theorem words_command (hs : s.waiting = false) (name : CommandName) (rest : List Bytes) :
    words .root (Bytes.ofString name.word :: rest) s = .ok (s, .command name rest) := by
  have hroot : Level.root.operands = .command := rfl
  rw [words]
  simp only [hroot, hs, Bool.not_false, and_self, if_true, if_neg name.word_ne_helpWord,
    name.ofWord?_word]
  rfl

/-- **One word in front of a program** is two hyphens, behind which operands follow; or it is
refused; or it is read as an option or a value; or it is the program. Which of these does not depend
on the words behind it. -/
theorem words_cons_cases (hl : l.operands = .program) (s : Scan) (w : Bytes) :
    (∀ rest, words l (w :: rest) s = s.operands l rest) ∨
      (∃ e, ∀ rest, words l (w :: rest) s = .error e) ∨
      (∃ t, ∀ rest, words l (w :: rest) s = words l rest t) ∨
      (∀ rest, words l (w :: rest) s = s.settle.map (·, .program (w :: rest))) := by
  -- What happens to a word that spells no option.
  have hother : (∃ t, ∀ rest, (if s.waiting then words l rest (s.addValue w)
        else s.settle.map (·, Stop.program (w :: rest))) = words l rest t) ∨
      ∀ rest, (if s.waiting then words l rest (s.addValue w)
        else s.settle.map (·, Stop.program (w :: rest))) =
          s.settle.map (·, .program (w :: rest)) := by
    cases s.waiting
    · exact .inr fun rest => rfl
    · exact .inl ⟨s.addValue w, fun rest => rfl⟩
  have hstep (option : Except UsageError (Option Scan))
      (h : ∀ rest, words l (w :: rest) s = option >>= fun read =>
        read.elim (if s.waiting then words l rest (s.addValue w)
          else s.settle.map (·, .program (w :: rest))) (words l rest)) :
      (∃ e, ∀ rest, words l (w :: rest) s = .error e) ∨
        (∃ t, ∀ rest, words l (w :: rest) s = words l rest t) ∨
        (∀ rest, words l (w :: rest) s = s.settle.map (·, .program (w :: rest))) := by
    rcases option with e | _ | t
    · exact .inl ⟨e, h⟩
    · rcases hother with ⟨t, ht⟩ | hp
      · exact .inr (.inl ⟨t, fun rest => (h rest).trans (ht rest)⟩)
      · exact .inr (.inr fun rest => (h rest).trans (hp rest))
    · exact .inr (.inl ⟨t, h⟩)
  cases hw : Word.of w with
  | escape => exact .inl fun rest => by rw [words]; simp [hl, hw]
  | long name value =>
    refine .inr (hstep (s.long l name value) fun rest => ?_)
    rw [words]
    simp only [hl, hw]
    rcases s.long l name value with _ | _ | _ <;> rfl
  | short word =>
    refine .inr (hstep (s.short l word) fun rest => ?_)
    rw [words]
    simp only [hl, hw]
    rcases s.short l word with _ | _ | _ <;> rfl
  | plain =>
    refine .inr (hstep (.ok none) fun rest => ?_)
    rw [words]
    simp only [hl, hw]
    rfl

theorem words_plain (hl : l.operands = .program) (hs : s.waiting = false)
    (hp : program.head? ≠ some hyphen) (rest : List Bytes) :
    words l (program :: rest) s = s.settle.map (·, .program (program :: rest)) := by
  rw [words]
  simp only [hl, hs, Word.of_eq_plain hp]
  cases s.settle <;> rfl

theorem operands_program (hl : l.operands = .program) (s : Scan) (rest : List Bytes) :
    s.operands l rest =
      if rest = [] then .ok (s, .ended) else s.settle.map (·, .program rest) := by
  cases rest with
  | nil =>
    rw [operands, if_pos rfl]
    rfl
  | cons w rest =>
    rw [operands, if_neg (List.cons_ne_nil w rest)]
    · cases s.settle <;> rfl
    · exact hl
    · exact List.cons_ne_nil w rest

/-- **What stands behind the options of a command is its program**, with the words that follow it as
they are: none of them is read as an option, as a value or as the end of the options. -/
theorem words_append (hl : l.operands = .program) {given : List Bytes}
    (h : words l given s = .ok (t, .ended)) (ht : t.waiting = false)
    (hp : program.head? ≠ some hyphen) (rest : List Bytes) :
    words l (given ++ program :: rest) s = t.settle.map (·, .program (program :: rest)) := by
  induction given generalizing s with
  | nil =>
    cases h
    exact words_plain hl ht hp rest
  | cons w given ih =>
    rw [List.cons_append]
    rcases words_cons_cases hl s w with hw | ⟨e, hw⟩ | ⟨u, hw⟩ | hw <;> rw [hw] at h ⊢
    · rw [operands_program hl] at h ⊢
      split_ifs at h with hnil
      · cases h
        subst hnil
        rw [List.nil_append, if_neg (List.cons_ne_nil program rest)]
      · cases hs : s.settle <;> rw [hs] at h <;> cases h
    · cases h
    · exact ih h
    · cases hs : s.settle <;> rw [hs] at h <;> cases h

end Scan

/-! ## The invocation -/

namespace Invocation

variable {name : CommandName} {tool : Tool} {program : Bytes}

theorem operands_of_tool? (h : name.tool? = some tool) :
    (Level.ofCommand name).operands = .program := by
  cases name <;> first | rfl | cases h

theorem parseCommand_append {s : Scan} {given : List Bytes} (htool : name.tool? = some tool)
    (h : Scan.words (Level.ofCommand name) given {} = .ok (s, .ended)) (hs : s.waiting = false)
    (hp : program.head? ≠ some hyphen) (rest : List Bytes) (environment : Option String) :
    parseCommand name (given ++ program :: rest) environment = do
      let (t, noColor) ← closeLevel (← s.settle) environment
      checkConflict t
      return (t, noColor, commandOf t (program :: rest) name) := by
  have hname : name ≠ .completions := by
    rintro rfl
    cases htool
  rw [parseCommand, Scan.words_append (operands_of_tool? htool) h hs hp]
  cases s.settle with
  | error e => rfl
  | ok t =>
    change (closeLevel t environment >>= _) = (closeLevel t environment >>= _)
    congr 1
    funext ⟨u, noColor⟩
    simp only [hname, false_and, if_false, ne_eq, List.isEmpty_cons, Bool.false_eq_true, and_false]

/-- **A program and its arguments are taken as they are.** -/
theorem program_verbatim (htool : name.tool? = some tool) (hp : program.head? ≠ some hyphen)
    (words : List Bytes) :
    parse (Bytes.ofString name.word :: program :: words) none =
      .ok { verbose := 0, quiet := false, logFormat := none, logFile := none, noColor := false,
            command := .run tool (program :: words) } := by
  have hcommand : commandOf {} (program :: words) name = .run tool (program :: words) := by
    cases name <;> cases htool <;> rfl
  have hinner : parseCommand name (program :: words) none =
      .ok ({}, none, .run tool (program :: words)) := by
    rw [← hcommand]
    have hnone : Scan.words (Level.ofCommand name) [] {} = .ok ({}, .ended) := rfl
    exact parseCommand_append htool hnone rfl hp words none
  rw [parse, Scan.words_command rfl]
  change ((parseCommand name (program :: words) none).mapError _ >>= _) = _
  rw [hinner]
  rfl

/-- Every argument looks like something else: options of the tool, the end of options, a request for
help, and a command. -/
theorem program_verbatim_options :
    let words := ["-v", "--", "--log-format", "--help", "-j", "wrap-doc"].map Bytes.ofString
    (CommandName.wrapPool.tool? = some (.pool [] none false .warc ⟨4096, none⟩) ∧
      (Bytes.ofString "sh").head? ≠ some hyphen) ∧
    parse ([Bytes.ofString "wrap-pool", Bytes.ofString "sh"] ++ words) none =
      .ok { verbose := 0, quiet := false, logFormat := none, logFile := none, noColor := false,
            command := .run (.pool [] none false .warc ⟨4096, none⟩)
              (Bytes.ofString "sh" :: words) } := by
  intro words
  have htool : CommandName.wrapPool.tool? = some (.pool [] none false .warc ⟨4096, none⟩) := rfl
  have hp : (Bytes.ofString "sh").head? ≠ some hyphen := by decide +kernel
  exact ⟨⟨htool, hp⟩, program_verbatim htool hp words⟩

end Invocation

end Coprocess
