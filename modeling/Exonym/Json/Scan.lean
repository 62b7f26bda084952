import Exonym.Json.Numeral

/-!
# Reading JSON text

A reader takes from the front of a text what it reads, or ends with the first problem that it meets. What nobody
asked for is passed over by looser rules: it may be nested to any depth, its texts may hold half of a surrogate
pair, and its numbers may be of any size.

Main statements:

* `Scan.peek_eq_ok_iff`: looking ahead takes nothing but blanks.
* `Scan.textFrom_plain`: a character that needs no escape stands for itself.
* `Scan.readAll_eq_ok_iff`: after the value nothing but blanks may follow.
-/

namespace Exonym

/-- A reader: what it reads from a text and the rest of the text, or the problem that ends the reading. -/
abbrev Scan (α : Type) : Type := StateT (List Char) (Except Problem) α

namespace Scan

/-! ## Characters -/

def isBlank (c : Char) : Bool :=
  c = ' ' || c = '\n' || c = '\t' || c = '\r'

/-- The next character that is no blank, if there is one. It is not taken. -/
def peek? : Scan (Option Char) := fun s =>
  let s := s.dropWhile isBlank
  .ok (s.head?, s)

/-- The next character that is no blank, where the text must not end. -/
def peek : Scan Char := do
  match ← peek? with
  | some c => return c
  | none => throw .truncated

theorem peek_eq_ok_iff {s rest : List Char} {c : Char} :
    peek s = .ok (c, rest) ↔ s.dropWhile isBlank = rest ∧ rest.head? = some c := by
  simp only [peek, peek?, bind, StateT.bind, Except.bind]
  cases h : (s.dropWhile isBlank).head? with
  | none => simp [throw, throwThe, MonadExceptOf.throw, StateT.lift, bind, Except.bind]; grind
  | some d =>
    change (Except.ok (d, s.dropWhile isBlank) : Except Problem _) = .ok (c, rest) ↔ _
    simp only [Except.ok.injEq, Prod.mk.injEq]
    grind

/-- Takes one character, blanks apart. -/
def advance : Scan Unit := fun s => .ok ((), (s.dropWhile isBlank).drop 1)

/-- Takes a character that has to come next. -/
def take (c : Char) : Scan Unit := do
  if (← peek) = c then advance else throw .malformed

/-! ## Texts -/

/-- What a short escape stands for. -/
def shortEscape? (c : Char) : Option Char :=
  match c with
  | '"' => some '"'
  | '\\' => some '\\'
  | '/' => some '/'
  | 'b' => some (Char.ofNat 8)
  | 'f' => some (Char.ofNat 12)
  | 'n' => some '\n'
  | 'r' => some '\r'
  | 't' => some '\t'
  | _ => none

def isHighSurrogate (n : Nat) : Bool :=
  0xD800 ≤ n && n < 0xDC00

def isLowSurrogate (n : Nat) : Bool :=
  0xDC00 ≤ n && n < 0xE000

/-- The character that a surrogate pair stands for. -/
def ofSurrogates (high low : Nat) : Char :=
  Char.ofNat (0x10000 + (high - 0xD800) * 0x400 + (low - 0xDC00))

/-- Why less than four characters cannot give the number of a code unit. A text ends too early if it has no four
bytes more. -/
def shortOfDigits (s : List Char) : Problem :=
  if s.foldl (fun size c => size + c.utf8Size) 0 < 4 then .truncated else .malformed

/-- Reads a text after its opening quotation mark. `read` holds its characters so far, the last one first, and
`high` the first half of a surrogate pair, if one came just before. Where halves need not stand in pairs, the
text is only passed over. -/
def textFrom (paired : Bool) (high : Option Nat) (read : List Char) : List Char → Except Problem (String × List Char)
  | [] => .error .truncated
  | ['\\'] => .error .truncated
  | '\\' :: 'u' :: a :: b :: c :: d :: rest =>
    match Digits.hexNumber? [a, b, c, d], high with
    | none, _ => .error .malformed
    | some low, some high =>
      if isLowSurrogate low then textFrom paired none (ofSurrogates high low :: read) rest
      else .error .malformed
    | some n, none =>
      if paired && isHighSurrogate n then textFrom paired (some n) read rest
      else if paired && isLowSurrogate n then .error .malformed
      else textFrom paired none (Char.ofNat n :: read) rest
  | '\\' :: 'u' :: rest => .error (shortOfDigits rest)
  | c :: rest =>
    if high.isSome then .error .malformed
    else if c = '"' then .ok (.ofList read.reverse, rest)
    else if c.toNat < 32 then .error .malformed
    else if c = '\\' then
      match rest with
      | [] => .error .truncated
      | e :: rest =>
        match shortEscape? e with
        | some e => textFrom paired none (e :: read) rest
        | none => .error .malformed
    else textFrom paired none (c :: read) rest

/-- Reads a text. -/
def text : Scan String := do
  take '"'
  textFrom true none []

/-- Passes over a text. -/
def skipText : Scan Unit := do
  take '"'
  discard (textFrom false none [] : Scan String)

theorem textFrom_plain {c : Char} (h : 32 ≤ c.toNat ∧ c ≠ '"' ∧ c ≠ '\\') (read rest : List Char) :
    textFrom true none read (c :: rest) = textFrom true none (c :: read) rest := by
  obtain ⟨hc, hq, hb⟩ := h
  rw [textFrom.eq_def]
  split <;> grind

/-! ## Words and numbers -/

/-- Takes a word of which the first character was seen. -/
def word (w : String) : Scan Unit := fun s =>
  let s := s.dropWhile isBlank
  if w.toList.isPrefixOf s then .ok ((), s.drop w.toList.length)
  else if s.isPrefixOf w.toList then .error .truncated
  else .error .malformed

def numeral : Scan Numeral := fun s => Numeral.scan (s.dropWhile isBlank)

/-- Reads a value that is no container. -/
def scalar : Scan Tree := do
  match ← peek with
  | '"' => return .text (← text)
  | 'n' => word "null"; return .null
  | 't' => word "true"; return .bool true
  | 'f' => word "false"; return .bool false
  | c =>
    if c = '-' || c.isDigit then
      match (← numeral).value? with
      | some t => return t
      | none => throw .malformed
    else throw .malformed

/-- Passes over a value that is no container. A number that breaks off counts as malformed. -/
def skipScalar : Scan Unit := do
  match ← peek with
  | '"' => skipText
  | 'n' => word "null"
  | 't' => word "true"
  | 'f' => word "false"
  | c =>
    if c = '-' || c.isDigit then
      match Numeral.scan (← get) with
      | .ok (_, rest) => set rest
      | .error _ => throw .malformed
    else throw .malformed

/-! ## Containers -/

/-- Whether a container goes on. After its first item a comma has to stand before the next one, which is taken. -/
def goesOn (first : Bool) (closing : Char) : Scan Bool := do
  let c ← peek
  if c = closing then return false
  else if first then return true
  else if c = ',' then
    advance
    return true
  else throw .malformed

/-- Reads the items of an array that are left, and closes it. Every item takes a character, so the length of the
text bounds their number. -/
def items {α : Type} (item : Scan α) (first : Bool) (done : List α) : (bound : Nat) → Scan (List α)
  | 0 => throw .truncated
  | bound + 1 => do
    if ← goesOn first ']' then
      let a ← item
      items item false (a :: done) bound
    else
      advance
      return done.reverse

/-- Reads the entries of an object that are left, and closes it. What follows a key is read by `entry`, together with
what was read before. -/
def entries {σ : Type} (entry : σ → String → Scan σ) (first : Bool) (state : σ) : (bound : Nat) → Scan σ
  | 0 => throw .truncated
  | bound + 1 => do
    if ← goesOn first '\x7d' then
      let state ← entry state (← text)
      entries entry false state bound
    else
      advance
      return state

/-- Reads any value, in which `depth` more levels of containers may be entered. -/
def tree (bound : Nat) : (depth : Nat) → Scan Tree
  | 0 => scalar
  | depth + 1 => do
    match ← peek with
    | '[' =>
      advance
      return .array (← items (tree bound depth) true [] bound)
    | '\x7b' =>
      advance
      let found ← entries (fun found key => do
        take ':'
        return (key, ← tree bound depth) :: found) true ([] : List (String × Tree)) bound
      return .object found.reverse
    | _ => scalar

/-! ## What nobody asked for -/

inductive Bracket where
  | array
  | object
  deriving DecidableEq, Repr

namespace Bracket

def closing : Bracket → Char
  | .array => ']'
  | .object => '\x7d'

def ofOpening? (c : Char) : Option Bracket :=
  match c with
  | '[' => some .array
  | '\x7b' => some .object
  | _ => none

/-- Passes over what stands before a value in a container. -/
def skipKey : Bracket → Scan Unit
  | .array => return ()
  | .object => do
    skipText
    take ':'

end Bracket

/-- Passes over the rest of a value: `opened` are the brackets to close, the innermost first. Either a value has to
come next, or one has just ended. Every round but the last takes a character, so the length of the text bounds their
number. -/
def skipFrom : (bound : Nat) → (valueNext : Bool) → (opened : List Bracket) → Scan Unit
  | 0, _, _ => throw .truncated
  | _ + 1, false, [] => return ()
  | bound + 1, false, b :: outer => do
    let c ← peek
    if c = b.closing then
      advance
      skipFrom bound false outer
    else if c = ',' then
      advance
      b.skipKey
      skipFrom bound true (b :: outer)
    else throw .malformed
  | bound + 1, true, opened => do
    match Bracket.ofOpening? (← peek) with
    | some b =>
      advance
      if (← peek) = b.closing then
        advance
        skipFrom bound false opened
      else
        b.skipKey
        skipFrom bound true (b :: opened)
    | none =>
      skipScalar
      skipFrom bound false opened

/-- Passes over a value. -/
def skip (bound : Nat) : Scan Unit :=
  skipFrom bound true []

/-! ## Whole texts -/

/-- The number of levels of containers that may be entered. -/
def maxDepth : Nat := 127

/-- Reads a text to its end. The reader gets a bound above the number of items and entries in the text. -/
def readAll {α : Type} (value : (bound : Nat) → Scan α) (s : String) : Except Problem α := do
  let chars := s.toList
  let (a, rest) ← value (chars.length + 2) chars
  if rest.all isBlank then return a else throw .malformed

theorem readAll_eq_ok_iff {α : Type} {value : Nat → Scan α} {s : String} {a : α} :
    readAll value s = .ok a ↔
      ∃ rest, value (s.toList.length + 2) s.toList = .ok (a, rest) ∧ rest.all isBlank = true := by
  simp only [readAll, bind, Except.bind]
  cases value (s.toList.length + 2) s.toList with
  | error p => exact ⟨nofun, nofun⟩
  | ok r =>
    obtain ⟨b, rest⟩ := r
    dsimp only
    by_cases h : rest.all isBlank = true
    · rw [if_pos h]
      exact ⟨fun hb => ⟨rest, by cases hb; rfl, h⟩, fun ⟨_, hr, _⟩ => by cases hr; rfl⟩
    · rw [if_neg h]
      exact ⟨nofun, fun ⟨_, hr, hd⟩ => by cases hr; exact absurd hd h⟩

end Scan

/-- Reads any value from its text. -/
def Tree.read? (s : String) : Option Tree :=
  (Scan.readAll (fun bound => Scan.tree bound Scan.maxDepth) s).toOption

end Exonym
