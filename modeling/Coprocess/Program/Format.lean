import Coprocess.Program.Script

/-!
# Formatted output

A format is text with conversions, each of which takes an argument. It is used again as long as
arguments are left.

* `Format.parse`: the parts of a format;
* `Format.apply`: the output for some arguments, and whether all of them could be converted.
-/

namespace Coprocess.Program

/-- How a converted argument is laid out. -/
structure Layout where
  left : Bool := false
  zeros : Bool := false
  plus : Bool := false
  blank : Bool := false
  alternate : Bool := false
  width : Nat := 0
  precision : Option Nat := none

/-- Who formats, which decides what is understood. -/
inductive Formatter
  | program
  /-- The shell itself. -/
  | shell
  deriving DecidableEq

/-- A part of a format. -/
inductive FormatPart
  | text (s : List Char)
  | conversion (letter : Char) (layout : Layout) (widthGiven precisionGiven : Bool)
  /-- All output ends here. -/
  | stop
  /-- So it does, and the format is to blame. -/
  | wrong

namespace Format

/-- The character that a letter after a backslash stands for. -/
def simpleEscape? : Char → Option Char
  | 'n' => some '\n'
  | 't' => some '\t'
  | 'r' => some '\r'
  | 'a' => some '\x07'
  | 'b' => some '\x08'
  | 'f' => some '\x0c'
  | 'v' => some '\x0b'
  | 'e' => some '\x1b'
  | '\\' => some '\\'
  | _ => none

/-- Reads what follows a backslash: a part and the rest. In an argument, octal numbers may have a
zero in front. -/
def escape (who : Formatter) (inArgument : Bool) (text : List Char) : FormatPart × List Char :=
  let literal (c : Char) (rest : List Char) : FormatPart × List Char :=
    if isOctal c then
      let digits := if inArgument && c = '0' then rest else c :: rest
      let (n, rest) := readOctal 3 digits
      (.text [Char.ofNat (n % 256)], rest)
    else match simpleEscape? c with
      | some d => (.text [d], rest)
      | none => (.text ['\\', c], rest)
  match who, text with
  | _, [] => (.text ['\\'], [])
  | .program, 'c' :: rest => (.stop, rest)
  | .program, '\x22' :: rest => (.text ['\x22'], rest)
  | .program, 'x' :: rest =>
    match readHexadecimal 2 rest with
    | some (n, rest) => (.text [Char.ofNat n], rest)
    | none => (.wrong, rest)
  | .shell, 'c' :: rest => if inArgument then (.stop, rest) else (.text ['\\', 'c'], rest)
  | _, c :: rest => literal c rest

/-- Reads the flags of a conversion. -/
def flags (who : Formatter) : List Char → Layout → Layout × List Char
  | '-' :: rest, l => flags who rest { l with left := true }
  | '0' :: rest, l => flags who rest { l with zeros := true }
  | '+' :: rest, l => flags who rest { l with plus := true }
  | ' ' :: rest, l => flags who rest { l with blank := true }
  | '#' :: rest, l => flags who rest { l with alternate := true }
  | '\x27' :: rest, l => if who = .program then flags who rest l else (l, '\x27' :: rest)
  | rest, l => (l, rest)

/-- Reads a number, or the star that says that an argument gives it. -/
def count (text : List Char) : Option Nat × Bool × List Char :=
  match text with
  | '*' :: rest => (none, true, rest)
  | _ =>
    match readDecimal text with
    | some (n, rest) => (some n, false, rest)
    | none => (none, false, text)

/-- A letter asks for a conversion that is known and takes such a layout. -/
def isConversion (who : Formatter) (letter : Char) (l : Layout) : Bool :=
  "diouxXscb".toList.contains letter &&
    (who = .shell ||
      !((l.alternate && "cdisu".toList.contains letter) ||
        (l.zeros && "cs".toList.contains letter) ||
        (l.precision.isSome && letter = 'c')))

/-- Reads a conversion after its percent sign. -/
def conversion (who : Formatter) (text : List Char) : FormatPart × List Char :=
  match text with
  | '%' :: rest => (.text ['%'], rest)
  | _ =>
    let (layout, rest) := flags who text {}
    let (width, widthGiven, rest) := count rest
    let layout := { layout with width := width.getD 0 }
    let (layout, precisionGiven, rest) : Layout × Bool × List Char := match rest with
      | '.' :: rest =>
        let (n, given, rest) := count rest
        ({ layout with precision := some (n.getD 0) }, given, rest)
      | _ => (layout, false, rest)
    let rest := if who = .program then rest.dropWhile fun c => "hlLjtz".toList.contains c else rest
    match rest with
    | c :: rest =>
      if isConversion who c layout then (.conversion c layout widthGiven precisionGiven, rest)
      else (.wrong, rest)
    | [] => (.wrong, [])

/-- The parts of a format. -/
def parse (who : Formatter) : Nat → List Char → List FormatPart
  | 0, _ => []
  | _, [] => []
  | fuel + 1, '\\' :: rest =>
    let (part, rest) := escape who false rest
    part :: parse who fuel rest
  | fuel + 1, '%' :: rest =>
    let (part, rest) := conversion who rest
    part :: parse who fuel rest
  | fuel + 1, c :: rest => .text [c] :: parse who fuel rest

/-- The parts of an argument in which backslashes escape. -/
def argumentParts (who : Formatter) : Nat → List Char → List FormatPart
  | 0, _ => []
  | _, [] => []
  | fuel + 1, '\\' :: rest =>
    let (part, rest) := escape who true rest
    part :: argumentParts who fuel rest
  | fuel + 1, c :: rest => .text [c] :: argumentParts who fuel rest

/-- Fills a text up to the width of its field. -/
def pad (l : Layout) (s : List Char) : List Char :=
  let fill := List.replicate (l.width - s.length) ' '
  if l.left then s ++ fill else fill ++ s

/-- A number with its sign in its field. -/
def padNumber (l : Layout) (sign digits : List Char) : List Char :=
  let digits := match l.precision with
    | some p => List.replicate (p - digits.length) '0' ++ digits
    | none => digits
  let zeros := if l.zeros && !l.left && l.precision.isNone then
      List.replicate (l.width - (sign.length + digits.length)) '0'
    else []
  pad l (sign ++ zeros ++ digits)

/-- One more than the largest number with a sign that 64 bits hold. -/
def signedBound : Int := 9223372036854775808

/-- The number that an argument spells, and whether it spells one. An empty one is zero. -/
def number (arg : List Char) : Int × Bool :=
  let arg := arg.dropWhile Char.isWhitespace
  let (negative, body) := match arg with
    | '-' :: rest => (true, rest)
    | '+' :: rest => (false, rest)
    | _ => (false, arg)
  let sign (n : Nat) (whole : Bool) : Int × Bool :=
    let n : Int := if negative then -(n : Int) else n
    if n < -signedBound then (-signedBound, false)
    else if 2 * signedBound ≤ n then (2 * signedBound - 1, false)
    else (n, whole)
  match body with
  | [] => (0, arg.isEmpty)
  | '\x27' :: c :: _ => (c.toNat, true)
  | '\x22' :: c :: _ => (c.toNat, true)
  | '0' :: x :: rest =>
    if x = 'x' || x = 'X' then
      match readHexadecimal rest.length rest with
      | some (n, after) => sign n after.isEmpty
      | none => (0, false)
    else
      let (n, after) := readOctal body.length body
      sign n after.isEmpty
  | _ =>
    match readDecimal body with
    | some (n, rest) => sign n rest.isEmpty
    | none => (0, false)

/-- A number without a sign, as words of 64 bits hold it. -/
def word (n : Int) : Nat := (n % (2 * signedBound)).toNat

/-- The text of a number that a letter asks for. -/
def numberText (letter : Char) (l : Layout) (n : Int) : List Char :=
  let unsigned (base : Nat) (lead : List Char) : List Char :=
    padNumber l (if l.alternate && word n != 0 then lead else []) (Nat.toDigits base (word n))
  match letter with
  | 'o' => unsigned 8 ['0']
  | 'x' => unsigned 16 ['0', 'x']
  | 'X' => (unsigned 16 ['0', 'x']).map Char.toUpper
  | 'u' => unsigned 10 []
  | _ =>
    let sign := if n < 0 then ['-'] else if l.plus then ['+'] else if l.blank then [' '] else []
    padNumber l sign (Nat.toDigits 10 n.natAbs)

/-- The state of formatting. -/
structure Run where
  who : Formatter
  output : Array Char := #[]
  args : List (List Char)
  /-- All arguments could be converted. -/
  clean : Bool := true
  stopped : Bool := false
  /-- The format is malformed. -/
  failed : Bool := false

/-- Takes the next argument; a missing one is empty. -/
def Run.take (r : Run) : List Char × Run :=
  match r.args with
  | a :: args => (a, { r with args })
  | [] => ([], r)

/-- Takes the next argument as a number; a missing one is zero. -/
def Run.takeNumber (r : Run) : Int × Run :=
  match r.args with
  | a :: args =>
    let (n, clean) := number a
    (n, { r with args, clean := r.clean && clean })
  | [] => (0, r)

/-- Writes some text. -/
def Run.put (r : Run) (s : List Char) : Run := { r with output := r.output ++ s }

/-- Carries out a part of a format. -/
def Run.part (r : Run) : FormatPart → Run
  | .text s => if r.stopped then r else r.put s
  | .stop => { r with stopped := true }
  | .wrong => if r.stopped then r else { r with stopped := true, failed := true }
  | .conversion letter layout widthGiven precisionGiven =>
    if r.stopped then r
    else
      let (layout, r) := if widthGiven then
          let (n, r) := r.takeNumber
          ({ layout with width := n.natAbs, left := layout.left || n < 0 }, r)
        else (layout, r)
      let (layout, r) := if precisionGiven then
          let (n, r) := r.takeNumber
          ({ layout with precision := if n < 0 then none else some n.toNat }, r)
        else (layout, r)
      match letter with
      | 's' =>
        let (s, r) := r.take
        r.put (pad layout (layout.precision.elim s s.take))
      | 'b' =>
        let (s, r) := r.take
        let (s, stopped) := (argumentParts r.who (s.length + 1) s).foldl (fun (s, stopped) part =>
          match part with
          | .text t => if stopped then (s, stopped) else (s ++ t, stopped)
          | _ => (s, true)) ([], false)
        { r.put (pad layout (layout.precision.elim s s.take)) with stopped }
      | 'c' =>
        let (s, r) := r.take
        r.put (pad layout [s.headD '\x00'])
      | _ =>
        let (n, r) := r.takeNumber
        let tooLarge : Bool := signedBound ≤ n && (letter = 'd' || letter = 'i')
        let n := if tooLarge then signedBound - 1 else n
        { r.put (numberText letter layout n) with clean := r.clean && !tooLarge }

/-- Uses a format, and again while it takes arguments and some are left. -/
def Run.rounds (parts : List FormatPart) : Nat → Run → Run
  | 0, r => r
  | fuel + 1, r =>
    let left := r.args.length
    let r := parts.foldl Run.part r
    if r.stopped || r.args.isEmpty || r.args.length = left then r else rounds parts fuel r

/-- How formatting ends. -/
inductive Outcome
  | clean
  /-- An argument could not be converted. -/
  | doubtful
  /-- The format is malformed. -/
  | failed

/-- The output for some arguments, and how formatting ends. -/
def apply (who : Formatter) (format : Bytes) (args : List Bytes) : Bytes × Outcome :=
  let text := charsOf format
  let r := Run.rounds (parse who (text.length + 1) text) (args.length + 1)
    { who, args := args.map charsOf }
  (bytesOf r.output.toList, if r.failed then .failed else if r.clean then .clean else .doubtful)

end Format

end Coprocess.Program
