import Exonym.Text.Double
import Exonym.Toml.Moment
import Exonym.Toml.Quoted

/-!
# Settings files as statements

A settings file is a sequence of lines: headings, which open a table or one more element of an array of tables, and
assignments to a key of the table that is open. What the statements amount to is another matter; here they are
taken from the text and written down.

Values are texts, numbers and truth values, dates and times, arrays and inline tables. How deep they lie in one
another, and how long a path of keys is, has a limit.
-/

namespace Exonym.Toml

/-- The way to a value: the tables it lies in, outermost first, and its own key. -/
structure Path where
  parents : List String
  key : String
  deriving DecidableEq, Repr, Inhabited

inductive Value where
  | text (s : String)
  | int (n : Int)
  /-- A number with a fraction or an exponent, as it is written. No setting is one. -/
  | real (digits : List Char)
  | bool (b : Bool)
  | moment (m : Moment)
  | array (items : List Value)
  | inlineTable (assignments : List (Path × Value))
  deriving Repr, Inhabited

inductive Statement where
  /-- The table that the following assignments belong to. -/
  | table (path : Path)
  /-- One more element of an array of tables. -/
  | element (path : Path)
  | assign (path : Path) (value : Value)
  deriving Repr, Inhabited

/-! ## Writing -/

/-- Characters of keys that need no quotes. -/
def isBareKeyChar (c : Char) : Bool :=
  c.isAlphanum || c = '_' || c = '-'

def renderKey (key : String) : List Char :=
  let s := key.toList
  if !s.isEmpty && s.all isBareKeyChar then s else Quoted.write (Quoted.formOfKey s) s

namespace Path

def render (p : Path) : List Char :=
  p.parents.flatMap (fun key => renderKey key ++ ['.']) ++ renderKey p.key

end Path

namespace Value

mutual

/-- Two or more items of an array have a line each. -/
def render : Value → List Char
  | .text s => Quoted.write (Quoted.formOfValue s.toList) s.toList
  | .int n => (toString n).toList
  | .real digits => digits
  | .moment m => m.text
  | .bool b => if b then ['t', 'r', 'u', 'e'] else ['f', 'a', 'l', 's', 'e']
  | .array [] => ['[', ']']
  | .array [item] => '[' :: item.render ++ [']']
  | .array (first :: second :: rest) => '[' :: '\n' :: renderItems (first :: second :: rest) ++ [']']
  | .inlineTable assignments => '\x7b' :: renderAssignments [' '] assignments ++ [' ', '\x7d']

def renderItems : List Value → List Char
  | [] => []
  | item :: rest => [' ', ' ', ' ', ' '] ++ item.render ++ [',', '\n'] ++ renderItems rest

/-- Assignments in one line, each after a separator. -/
def renderAssignments (separator : List Char) : List (Path × Value) → List Char
  | [] => []
  | (path, value) :: rest =>
    separator ++ path.render ++ [' ', '=', ' '] ++ value.render ++ renderAssignments [',', ' '] rest

end

end Value

namespace Statement

def renderLine : Statement → List Char
  | .table path => '[' :: path.render ++ [']', '\n']
  | .element path => '[' :: '[' :: path.render ++ [']', ']', '\n']
  | .assign path value => path.render ++ [' ', '=', ' '] ++ value.render ++ ['\n']

def isHeading : Statement → Bool
  | .table _ | .element _ => true
  | .assign .. => false

/-- The lines of statements that follow others. A heading among them stands after an empty line. -/
def renderMore : List Statement → List Char
  | [] => []
  | s :: rest => (if s.isHeading then ['\n'] else []) ++ s.renderLine ++ renderMore rest

def render : List Statement → List Char
  | [] => []
  | s :: rest => s.renderLine ++ renderMore rest

end Statement

/-! ## Reading layout -/

/-- The text after a line break or at the end of the whole text. -/
def afterBreak? : List Char → Option (List Char)
  | [] => some []
  | '\n' :: rest => some rest
  | '\r' :: '\n' :: rest => some rest
  | _ => none

/-- The next line, where this one has nothing more but blanks and a comment. -/
def nextLine? (s : List Char) : Option (List Char) :=
  match s.dropWhile isBlank with
  | '#' :: rest => afterBreak? (rest.dropWhile isPlain)
  | rest => afterBreak? rest

/-- Passes over blanks, line breaks and comments. -/
def skipLayout (inComment : Bool) : List Char → Option (List Char)
  | [] => some []
  | '\n' :: rest => skipLayout false rest
  | '\r' :: '\n' :: rest => skipLayout false rest
  | c :: rest =>
    if inComment then if isPlain c then skipLayout true rest else none
    else if c = '#' then skipLayout true rest
    else if isBlank c then skipLayout false rest
    else some (c :: rest)

/-! ## Reading keys -/

def scanKey (s : List Char) : Option (String × List Char) :=
  match s.span isBareKeyChar with
  | ([], s) => (Quoted.scanKey s).map fun (key, rest) => (.ofList key, rest)
  | (key, rest) => some (.ofList key, rest)

/-- How many keys a path may have, and how many arrays and inline tables may lie in one another. -/
def maxDepth : Nat := 79

/-- Keys joined by dots, with blanks around them; no more than `count` of them. -/
def scanPath : (count : Nat) → List Char → Option (Path × List Char)
  | 0, _ => none
  | count + 1, s => do
    let (key, rest) ← scanKey (s.dropWhile isBlank)
    match rest.dropWhile isBlank with
    | '.' :: rest =>
      let (p, rest) ← scanPath count rest
      return (⟨key :: p.parents, p.key⟩, rest)
    | rest => return (⟨[], key⟩, rest)

def path? (s : List Char) : Option (Path × List Char) :=
  scanPath maxDepth s

/-! ## Reading whole numbers -/

/-- Digits, between which single underscores may stand, after a first digit. -/
def scanDigits (isDigit : Char → Bool) : List Char → List Char × List Char
  | [] => ([], [])
  | '_' :: c :: rest =>
    if isDigit c then
      let (digits, rest) := scanDigits isDigit rest
      (c :: digits, rest)
    else ([], '_' :: c :: rest)
  | c :: rest =>
    if isDigit c then
      let (digits, rest) := scanDigits isDigit rest
      (c :: digits, rest)
    else ([], c :: rest)

/-- The number that digits of a base stand for. -/
def numberInBase (base : Nat) (digits : List Char) : Nat :=
  digits.foldl (fun n c => base * n + (Digits.hexValue? c).getD 0) 0

def isDigitOf (base : Nat) (c : Char) : Bool :=
  (Digits.hexValue? c).any (· < base)

/-- A number in another base, after the letter that names it. -/
def scanInBase (base : Nat) : List Char → Option (Int × List Char)
  | [] => none
  | c :: rest =>
    if isDigitOf base c then
      let (digits, rest) := scanDigits (isDigitOf base) rest
      some (numberInBase base (c :: digits), rest)
    else none

/-- Decimal digits, one or more. -/
def scanPlaces : List Char → Option (List Char × List Char)
  | [] => none
  | c :: rest =>
    if c.isDigit then
      let (digits, rest) := scanDigits Char.isDigit rest
      some (c :: digits, rest)
    else none

/-- The digits of a decimal number after its sign: a lone zero, or digits that start with no zero. -/
def scanWhole : List Char → Option (List Char × List Char)
  | '0' :: rest => some (['0'], rest)
  | s => scanPlaces s

/-- A decimal number after its sign. -/
def scanDecimal (s : List Char) : Option (Nat × List Char) :=
  (scanWhole s).map fun (digits, rest) => (numberInBase 10 digits, rest)

def scanUnbounded : List Char → Option (Int × List Char)
  | '0' :: 'x' :: rest => scanInBase 16 rest
  | '0' :: 'o' :: rest => scanInBase 8 rest
  | '0' :: 'b' :: rest => scanInBase 2 rest
  | '+' :: rest => (scanDecimal rest).map fun (n, rest) => ((n : Int), rest)
  | '-' :: rest => (scanDecimal rest).map fun (n, rest) => (-(n : Int), rest)
  | s => (scanDecimal s).map fun (n, rest) => ((n : Int), rest)

/-- A whole number of 64 bits. -/
def scanNumber (s : List Char) : Option (Int × List Char) :=
  (scanUnbounded s).filter fun (n, _) => -.pow 2 63 ≤ n && n < .pow 2 63

/-! ## Reading numbers with fractions or exponents -/

/-- A sign, if there is one, and what follows it. -/
def takeSign (s : List Char) : List Char × List Char :=
  match s with
  | '+' :: rest => (['+'], rest)
  | '-' :: rest => (['-'], rest)
  | _ => ([], s)

/-- The digits after a point, if there is one. -/
def scanFraction (s : List Char) : Option (Option (List Char) × List Char) :=
  match s with
  | '.' :: rest => (scanPlaces rest).map fun (digits, rest) => (some digits, rest)
  | _ => some (none, s)

/-- The sign and the digits of an exponent after its mark. -/
def scanPower (s : List Char) : Option ((List Char × List Char) × List Char) :=
  let (sign, rest) := takeSign s
  (scanPlaces rest).map fun (digits, rest) => ((sign, digits), rest)

/-- The exponent, if there is one. -/
def scanExponent (s : List Char) : Option (Option (List Char × List Char) × List Char) :=
  match s with
  | 'e' :: rest => (scanPower rest).map fun (power, rest) => (some power, rest)
  | 'E' :: rest => (scanPower rest).map fun (power, rest) => (some power, rest)
  | _ => some (none, s)

/-- The power of ten that an exponent stands for. -/
def powerOf : Option (List Char × List Char) → Int
  | none => 0
  | some (sign, digits) => if sign = ['-'] then -(Digits.number digits : Int) else Digits.number digits

/-- A number with a fraction or an exponent, or a word that stands for one. A positive number has to be in the range
of doubles, or be infinite by its word. -/
def scanReal (s : List Char) : Option (List Char × List Char) := do
  let (sign, s) := takeSign s
  match s with
  | 'i' :: 'n' :: 'f' :: rest => return (sign ++ ['i', 'n', 'f'], rest)
  | 'n' :: 'a' :: 'n' :: rest => return (sign ++ ['n', 'a', 'n'], rest)
  | _ =>
    let (whole, rest) ← scanWhole s
    let (fraction, rest) ← scanFraction rest
    let (power, rest) ← scanExponent rest
    if fraction.isNone && power.isNone then none
    let places := fraction.getD []
    if sign ≠ ['-'] && Double.isBeyond (whole ++ places) (powerOf power - places.length) then none
    return (sign ++ whole ++ (fraction.elim [] ('.' :: ·)) ++ (power.elim [] fun p => 'e' :: p.1 ++ p.2), rest)

/-! ## Reading values -/

mutual

/-- Reads a value, in which `depth` more arrays and inline tables may lie in one another. The bound is above the
number of values and separators that can stand in the text. -/
def scanValue : (bound : Nat) → (depth : Nat) → List Char → Option (Value × List Char)
  | 0, _, _ => none
  | bound + 1, depth, s =>
    match s, depth with
    | '[' :: rest, depth + 1 => (scanItems bound depth rest).map fun (items, rest) => (.array items, rest)
    | '\x7b' :: rest, depth + 1 =>
      match rest.dropWhile isBlank with
      | '\x7d' :: rest => some (.inlineTable [], rest)
      | rest => (scanAssignments bound depth rest).map fun (assignments, rest) => (.inlineTable assignments, rest)
    | 't' :: 'r' :: 'u' :: 'e' :: rest, _ => some (.bool true, rest)
    | 'f' :: 'a' :: 'l' :: 's' :: 'e' :: rest, _ => some (.bool false, rest)
    | s, _ =>
      (((Quoted.scanValue s).map fun (text, rest) => (Value.text (.ofList text), rest)).or
        ((Moment.scan s).map fun (m, rest) => (.moment m, rest))).or
        (((scanReal s).map fun (digits, rest) => (Value.real digits, rest)).or
          ((scanNumber s).map fun (n, rest) => (.int n, rest)))

/-- The items of an array, up to its closing bracket. A comma may follow the last one. -/
def scanItems : (bound : Nat) → (depth : Nat) → List Char → Option (List Value × List Char)
  | 0, _, _ => none
  | bound + 1, depth, s => do
    match ← skipLayout false s with
    | ']' :: rest => return ([], rest)
    | s =>
      let (item, rest) ← scanValue bound depth s
      match ← skipLayout false rest with
      | ',' :: rest =>
        let (items, rest) ← scanItems bound depth rest
        return (item :: items, rest)
      | ']' :: rest => return ([item], rest)
      | _ => none

/-- The assignments of an inline table, one or more, up to its closing brace. -/
def scanAssignments : (bound : Nat) → (depth : Nat) → List Char → Option (List (Path × Value) × List Char)
  | 0, _, _ => none
  | bound + 1, depth, s => do
    match ← path? s with
    | (path, '=' :: rest) =>
      let (value, rest) ← scanValue bound depth (rest.dropWhile isBlank)
      match rest.dropWhile isBlank with
      | ',' :: rest =>
        let (assignments, rest) ← scanAssignments bound depth rest
        return ((path, value) :: assignments, rest)
      | '\x7d' :: rest => return ([(path, value)], rest)
      | _ => none
    | _ => none

end

def value? (s : List Char) : Option (Value × List Char) :=
  scanValue (2 * s.length + 2) maxDepth s

/-! ## Reading statements -/

namespace Statement

/-- One statement, and the lines after it. -/
def scan (s : List Char) : Option (Statement × List Char) :=
  match s with
  | '[' :: '[' :: rest => do
    match ← path? rest with
    | (path, ']' :: ']' :: rest) => return (.element path, ← nextLine? rest)
    | _ => none
  | '[' :: rest => do
    match ← path? rest with
    | (path, ']' :: rest) => return (.table path, ← nextLine? rest)
    | _ => none
  | s => do
    match ← path? s with
    | (path, '=' :: rest) =>
      let (value, rest) ← value? (rest.dropWhile isBlank)
      return (.assign path value, ← nextLine? rest)
    | _ => none

/-- Whether nothing stands in a line. -/
def isEmptyLine (s : List Char) : Bool :=
  match s with
  | [] | '\n' :: _ | '\r' :: _ | '#' :: _ => true
  | _ => false

/-- The statements of a text. Every line takes a character, so the length of the text bounds their number. -/
def scanAll : Nat → List Char → Option (List Statement)
  | 0, _ => none
  | bound + 1, s =>
    match s.dropWhile isBlank with
    | [] => some []
    | s =>
      if isEmptyLine s then (nextLine? s).bind (scanAll bound)
      else do
        let (first, rest) ← scan s
        let more ← scanAll bound rest
        return first :: more

/-- The mark by which a text may say that it is in Unicode. -/
def byteOrderMark : Char := Char.ofNat 0xFEFF

/-- The statements of a text, if it has the form of a settings file. -/
def read? (text : String) : Option (List Statement) :=
  let s := text.toList
  let s := if s.head? = some byteOrderMark then s.drop 1 else s
  scanAll (s.length + 1) s

end Statement

end Exonym.Toml
