/-!
# JSON values and their text

Values as they are written: objects keep the order of their fields, and numbers are whole.
-/

namespace Exonym

inductive Json where
  | null
  | bool (b : Bool)
  | int (n : Int)
  | text (s : String)
  | array (items : List Json)
  | object (fields : List (String × Json))
  deriving Repr, Inhabited

namespace Json

/-! ## Building values -/

def ofOption {α : Type} (f : α → Json) : Option α → Json
  | some a => f a
  | none => .null

def ofList {α : Type} (f : α → Json) (items : List α) : Json :=
  .array (items.map f)

def ofText? (s : Option String) : Json :=
  ofOption .text s

def ofNat (n : Nat) : Json :=
  .int n

def ofWord (n : UInt32) : Json :=
  .int n.toNat

/-! ## Text -/

def hexDigit (n : Nat) : Char :=
  if n < 10 then Char.ofNat (48 + n) else Char.ofNat (87 + n)

/-- A character as it stands in a written text: quotation marks and backslashes are escaped, control characters by
their short names or by number. -/
def escape (c : Char) : List Char :=
  if c = '"' then ['\\', '"']
  else if c = '\\' then ['\\', '\\']
  else if c = '\n' then ['\\', 'n']
  else if c = '\r' then ['\\', 'r']
  else if c = '\t' then ['\\', 't']
  else if c.toNat = 8 then ['\\', 'b']
  else if c.toNat = 12 then ['\\', 'f']
  else if c.toNat < 32 then ['\\', 'u', '0', '0', hexDigit (c.toNat / 16), hexDigit (c.toNat % 16)]
  else [c]

def quote (s : String) : String :=
  .ofList ('"' :: s.toList.flatMap escape ++ ['"'])

/-- How a value is laid out: in one line, or with a line for every item, indented by its depth. -/
inductive Layout where
  | compact
  | indented
  deriving DecidableEq, Repr

namespace Layout

def lineBreak (l : Layout) (depth : Nat) : String :=
  match l with
  | .compact => ""
  | .indented => "\n" ++ .ofList (.replicate (2 * depth) ' ')

def colon : Layout → String
  | .compact => ":"
  | .indented => ": "

/-- Items between two brackets, with line breaks around them. -/
def enclose (l : Layout) (depth : Nat) (opening closing : String) (items : List String) : String :=
  if items.isEmpty then opening ++ closing
  else
    opening ++ l.lineBreak (depth + 1) ++ ("," ++ l.lineBreak (depth + 1)).intercalate items ++
      l.lineBreak depth ++ closing

end Layout

mutual

/-- The text of a value that stands at the given depth. -/
def render (l : Layout) (depth : Nat) : Json → String
  | .null => "null"
  | .bool b => if b then "true" else "false"
  | .int n => toString n
  | .text s => quote s
  | .array items => l.enclose depth "[" "]" (renderItems l (depth + 1) items)
  | .object fields => l.enclose depth "\x7b" "\x7d" (renderFields l (depth + 1) fields)

def renderItems (l : Layout) (depth : Nat) : List Json → List String
  | [] => []
  | j :: rest => render l depth j :: renderItems l depth rest

def renderFields (l : Layout) (depth : Nat) : List (String × Json) → List String
  | [] => []
  | (key, j) :: rest => (quote key ++ l.colon ++ render l depth j) :: renderFields l depth rest

end

def compact (j : Json) : String :=
  render .compact 0 j

def pretty (j : Json) : String :=
  render .indented 0 j

end Json

end Exonym
