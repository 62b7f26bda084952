import Exonym.Text.Digits

/-!
# Quoted text in settings files

A text may be quoted in four forms. Basic forms have escapes, literal forms have none; each kind has a form for one
line, and one for several, between threefold quotation marks. A text is written in the first form that needs no
escape.

Main statements:

* `Quoted.scanLiteral_append`: a literal text that is written is read back, up to its closing mark.
-/

namespace Exonym.Toml

/-- Blanks inside a line. -/
def isBlank (c : Char) : Bool :=
  c = ' ' || c = '\t'

/-- Whether a character is no control character; a tab is not counted as one. -/
def isPlain (c : Char) : Bool :=
  c = '\t' || (32 ≤ c.toNat && c.toNat ≠ 127)

def apostrophe : Char := '\x27'

namespace Quoted

/-! ## Writing -/

/-- A hexadecimal digit, letters in upper case. -/
def hexDigit (n : Nat) : Char :=
  if n < 10 then Char.ofNat (48 + n) else Char.ofNat (55 + n)

/-- A character other than a quotation mark, as it stands in a basic form. A line break stands for itself where
there may be several lines. -/
def escape (multiline : Bool) (c : Char) : List Char :=
  if c.toNat = 8 then ['\\', 'b']
  else if c = '\t' then ['\\', 't']
  else if c = '\n' then if multiline then ['\n'] else ['\\', 'n']
  else if c.toNat = 12 then ['\\', 'f']
  else if c = '\r' then ['\\', 'r']
  else if c = '\\' then ['\\', '\\']
  else if isPlain c then [c]
  else ['\\', 'u', '0', '0', hexDigit (c.toNat / 16), hexDigit (c.toNat % 16)]

def basicBody (s : List Char) : List Char :=
  s.flatMap fun c => if c = '"' then ['\\', '"'] else escape false c

/-- In the form for several lines two quotation marks in a row stand for themselves; `run` of them have been
written just before. -/
def multilineBody (run : Nat) : List Char → List Char
  | [] => []
  | c :: rest =>
    if c = '"' then
      if run < 2 then '"' :: multilineBody (run + 1) rest else '\\' :: '"' :: multilineBody 0 rest
    else escape true c ++ multilineBody 0 rest

/-- The length of the longest run of a character, `run` of which have been seen just before. -/
def longestRun (mark : Char) (run : Nat) : List Char → Nat
  | [] => run
  | c :: rest => if c = mark then longestRun mark (run + 1) rest else max run (longestRun mark 0 rest)

inductive Form where
  | basic
  | literal
  | multilineBasic
  | multilineLiteral
  deriving DecidableEq, Repr

/-- The form of a value. -/
def formOfValue (s : List Char) : Form :=
  let hasBreak := s.contains '\n'
  let hasControl := s.any fun c => c ≠ '\n' && !isPlain c
  let hasBackslash := s.contains '\\'
  if !hasControl && !hasBackslash && !hasBreak && !s.contains '"' then .basic
  else if !hasControl && !hasBreak && !s.contains apostrophe then .literal
  else if !hasControl && !hasBackslash && longestRun '"' 0 s ≤ 2 then .multilineBasic
  else if !hasControl && longestRun apostrophe 0 s ≤ 2 then .multilineLiteral
  else if hasBreak then .multilineBasic
  else .basic

/-- The form of a key, which has to be on one line. -/
def formOfKey (s : List Char) : Form :=
  let hasControl := s.any fun c => !isPlain c
  if !hasControl && !s.contains '\\' && !s.contains '"' then .basic
  else if !hasControl && !s.contains apostrophe then .literal
  else .basic

/-- A text between the marks of a form for several lines; where it has a line break, one more stands before it. -/
def encloseLines (mark : Char) (s body : List Char) : List Char :=
  .replicate 3 mark ++ (if s.contains '\n' then ['\n'] else []) ++ body ++ .replicate 3 mark

def write (form : Form) (s : List Char) : List Char :=
  match form with
  | .basic => '"' :: basicBody s ++ ['"']
  | .literal => apostrophe :: s ++ [apostrophe]
  | .multilineBasic => encloseLines '"' s (multilineBody 0 s)
  | .multilineLiteral => encloseLines apostrophe s s

/-! ## Reading -/

/-- What a short escape stands for. -/
def shortEscape? (c : Char) : Option Char :=
  match c with
  | 'b' => some (Char.ofNat 8)
  | 't' => some '\t'
  | 'n' => some '\n'
  | 'f' => some (Char.ofNat 12)
  | 'r' => some '\r'
  | '"' => some '"'
  | '\\' => some '\\'
  | _ => none

/-- The character with the given number; halves of surrogate pairs are none. -/
def numbered? (digits : List Char) : Option Char :=
  (Digits.hexNumber? digits).bind fun n => if n.isValidChar then some (Char.ofNat n) else none

/-- What a reading gives: a text, and what follows it. -/
abbrev Scanned := Option (List Char × List Char)

def prepend (c : Option Char) (r : Scanned) : Scanned := do
  let c ← c
  let (s, rest) ← r
  return (c :: s, rest)

/-- Reads a basic text after its opening mark. -/
def scanBasic : List Char → Scanned
  | [] => none
  | '"' :: rest => some ([], rest)
  | '\\' :: 'u' :: a :: b :: c :: d :: rest => prepend (numbered? [a, b, c, d]) (scanBasic rest)
  | '\\' :: 'U' :: a :: b :: c :: d :: e :: f :: g :: h :: rest =>
    prepend (numbered? [a, b, c, d, e, f, g, h]) (scanBasic rest)
  | '\\' :: c :: rest => prepend (shortEscape? c) (scanBasic rest)
  | c :: rest => prepend (if isPlain c && c ≠ '\\' then some c else none) (scanBasic rest)

/-- Reads a literal text after its opening mark. -/
def scanLiteral : List Char → Scanned
  | [] => none
  | c :: rest =>
    if c = apostrophe then some ([], rest)
    else prepend (if isPlain c then some c else none) (scanLiteral rest)

/-- What follows the closing marks of a text of several lines. Up to two marks before them belong to the text. -/
def finish (mark : Char) : List Char → Scanned
  | [] => some ([], [])
  | [c] => if c = mark then some ([mark], []) else some ([], [c])
  | c :: d :: rest =>
    if c = mark then if d = mark then some ([mark, mark], rest) else some ([mark], d :: rest)
    else some ([], c :: d :: rest)

/-- Whether a line has nothing more but blanks, and another line follows. -/
def endsLine (s : List Char) : Bool :=
  match s.dropWhile isBlank with
  | '\n' :: _ => true
  | '\r' :: '\n' :: _ => true
  | _ => false

/-- Reads a basic text of several lines after its opening marks. A backslash at the end of a line takes all blanks
and line breaks after it away: then `trimming` is on. -/
def scanMultilineBasic (trimming : Bool) : List Char → Scanned
  | [] => none
  | '"' :: '"' :: '"' :: rest => finish '"' rest
  | '\n' :: rest =>
    if trimming then scanMultilineBasic true rest else prepend (some '\n') (scanMultilineBasic false rest)
  | '\r' :: '\n' :: rest =>
    if trimming then scanMultilineBasic true rest else prepend (some '\n') (scanMultilineBasic false rest)
  | '\\' :: 'u' :: a :: b :: c :: d :: rest =>
    prepend (numbered? [a, b, c, d]) (scanMultilineBasic false rest)
  | '\\' :: 'U' :: a :: b :: c :: d :: e :: f :: g :: h :: rest =>
    prepend (numbered? [a, b, c, d, e, f, g, h]) (scanMultilineBasic false rest)
  | '\\' :: c :: rest =>
    if endsLine (c :: rest) then scanMultilineBasic true (c :: rest)
    else prepend (shortEscape? c) (scanMultilineBasic false rest)
  | c :: rest =>
    if trimming && isBlank c then scanMultilineBasic true rest
    else prepend (if isPlain c && c ≠ '\\' then some c else none) (scanMultilineBasic false rest)

/-- Reads a literal text of several lines after its opening marks. -/
def scanMultilineLiteral : List Char → Scanned
  | [] => none
  | '\x27' :: '\x27' :: '\x27' :: rest => finish apostrophe rest
  | '\n' :: rest => prepend (some '\n') (scanMultilineLiteral rest)
  | '\r' :: '\n' :: rest => prepend (some '\n') (scanMultilineLiteral rest)
  | c :: rest => prepend (if isPlain c then some c else none) (scanMultilineLiteral rest)

/-- A line break right after the opening marks is no part of the text. -/
def dropBreak : List Char → List Char
  | '\n' :: rest => rest
  | '\r' :: '\n' :: rest => rest
  | s => s

/-- Reads a quoted key. -/
def scanKey : List Char → Scanned
  | '"' :: rest => scanBasic rest
  | '\x27' :: rest => scanLiteral rest
  | _ => none

/-- Reads a quoted value. -/
def scanValue : List Char → Scanned
  | '"' :: '"' :: '"' :: rest => scanMultilineBasic false (dropBreak rest)
  | '\x27' :: '\x27' :: '\x27' :: rest => scanMultilineLiteral (dropBreak rest)
  | s => scanKey s

theorem scanLiteral_append {s : List Char} (h : ∀ c ∈ s, isPlain c = true ∧ c ≠ apostrophe) (rest : List Char) :
    scanLiteral (s ++ apostrophe :: rest) = some (s, rest) := by
  induction s with
  | nil => simp [scanLiteral]
  | cons c s ih =>
    have ⟨hp, ha⟩ := h c (by simp)
    simp [scanLiteral, ha, hp, ih fun d hd => h d (by simp [hd]), prepend]

end Quoted

end Exonym.Toml
