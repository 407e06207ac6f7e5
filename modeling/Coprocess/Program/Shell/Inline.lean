import Coprocess.Program.Script

/-!
# Texts inside of scripts

A script may hold texts for the input of its commands, each of them on the lines after the command.
A text is moved to where its mark stands, as a quoted word.

* `Inline.resolve`.
-/

namespace Coprocess.Program.Shell.Inline

/-- A text as a word in which nothing has a meaning. -/
def single (text : List Char) : List Char :=
  '\x27' :: text.flatMap (fun c => if c = '\x27' then ['\x27', '\\', '\x27', '\x27'] else [c]) ++
    ['\x27']

/-- A text as a word in which parameters and substitutions have a meaning, but no quotes. -/
def double (text : List Char) : List Char := '\x22' :: inner text
where
  /-- Hides quotes, and the backslashes that hide nothing. -/
  inner : List Char → List Char
    | [] => ['\x22']
    | '\x22' :: rest => '\\' :: '\x22' :: inner rest
    | ['\\'] => ['\\', '\\', '\x22']
    | '\\' :: c :: rest =>
      if c = '$' ∨ c = '\x60' ∨ c = '\\' ∨ c = '\n' then '\\' :: c :: inner rest
      else '\\' :: '\\' :: (if c = '\x22' then ['\\', '\x22'] else [c]) ++ inner rest
    | c :: rest => c :: inner rest

/-- The lines up to one that is the mark, and what follows it. The lines are held last first. -/
def body (mark : List Char) (strip : Bool) (read : List (List Char)) :
    Nat → List Char → List Char × List Char
  | 0, text => (read.reverse.flatten, text)
  | fuel + 1, text =>
    if text.isEmpty then (read.reverse.flatten, [])
    else
      let line := text.takeWhile (· ≠ '\n')
      let rest := (text.drop line.length).drop 1
      let line := if strip then line.dropWhile (· = '\t') else line
      if line = mark then (read.reverse.flatten, rest)
      else body mark strip ((line ++ ['\n']) :: read) fuel rest

/-- A character that ends a mark. -/
def endsMark (c : Char) : Bool := c.isWhitespace || ";&|<>()".toList.contains c

/-- A character that hides what a mark holds. -/
def isQuote (c : Char) : Bool := c = '\x22' || c = '\x27' || c = '\\'

/-- Moves the texts of a script. `quote` is the quote in which the script is, and `opening` tells
that a word may start here. -/
def move (quote : Option Char) (opening : Bool) : Nat → List Char → List Char
  | 0, text => text
  | _, [] => []
  | fuel + 1, c :: rest =>
    match quote, c, rest with
    | some '\x27', _, _ => c :: move (if c = '\x27' then none else quote) false fuel rest
    | _, '\\', d :: rest => c :: d :: move quote false fuel rest
    | some q, _, _ => c :: move (if c = q then none else quote) false fuel rest
    | none, '#', _ =>
      if opening then
        move none false fuel (rest.dropWhile (· ≠ '\n'))
      else c :: move none false fuel rest
    | none, '$', '(' :: '(' :: rest => '$' :: '(' :: '(' :: arithmetic fuel rest
    | none, '<', '<' :: rest =>
      let (strip, rest) := match rest with
        | '-' :: rest => (true, rest)
        | _ => (false, rest)
      let rest := rest.dropWhile isBlank
      let word := rest.takeWhile fun c => !endsMark c
      let rest := rest.drop word.length
      let line := rest.takeWhile (· ≠ '\n')
      let (text, after) := body (word.filter fun c => !isQuote c) strip [] rest.length
        ((rest.drop line.length).drop 1)
      '<' :: '<' :: (if word.any isQuote then single text else double text) ++
        move none false fuel (line ++ '\n' :: after)
    | none, _, _ =>
      if c = '\x27' ∨ c = '\x22' then c :: move (some c) false fuel rest
      else c :: move none (endsMark c) fuel rest
where
  /-- Passes over an arithmetic expression. -/
  arithmetic : Nat → List Char → List Char
    | 0, text => text
    | _, [] => []
    | fuel + 1, ')' :: ')' :: rest => ')' :: ')' :: move none false fuel rest
    | fuel + 1, c :: rest => c :: arithmetic fuel rest

/-- A script in which every text stands where it is used. -/
def resolve (script : List Char) : List Char :=
  if (script.zip script.tail).contains ('<', '<') then
    move none true (2 * script.length + 2) script
  else script

end Coprocess.Program.Shell.Inline
