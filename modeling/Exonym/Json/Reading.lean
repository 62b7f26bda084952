import Exonym.Json.Scan
import Exonym.Json.Shape

/-!
# Reading JSON text by its expected form

A text is read by a shape as it comes, so that of several problems the first one in the text is told: a form that is
not the expected one is found before what is no JSON after it, and what is missing is seen where a container ends.
Only a tagged record is read in full before it is looked at, because the tag may come last.
-/

namespace Exonym.Shape

open Scan

/-- Gives what there is; what is not there was of another form. -/
def orMismatch {α : Type} : Option α → Scan α
  | some a => return a
  | none => throw .mismatch

/-- Reads a word, a text or a number. One of another form is read in full before it is refused, a container is not. -/
def simple {α : Type} (accept : Tree → Option α) : Scan α := do
  let c ← peek
  if (Bracket.ofOpening? c).isSome then throw .mismatch
  orMismatch (accept (← scalar))

def isNull? : Tree → Option Unit
  | .null => some ()
  | _ => none

/-! ## Inside a container -/

/-- The readers of what is inside a container. -/
structure Inner where
  value : Shape → Scan Json
  tree : Scan Tree

/-- Takes the opening bracket of a container. There are no readers of what is inside it if it stands too deep. -/
def enter : Option Inner → Scan Inner
  | some i => do
    advance
    return i
  | none => throw .malformed

namespace Inner

/-- The value of a field. -/
def field (i : Inner) (f : RecordField Shape) : Scan Json := do
  if f.nullable && (← peek?) = some 'n' then
    word "null"
    return .null
  else i.value f.shape

/-- The values of a record's fields that are left, one after the other, up to the end of the array. -/
def positions (i : Inner) (first : Bool) : List (RecordField Shape) → Scan (List (String × Json))
  | [] => do
    take ']'
    return []
  | f :: fields => do
    if ← goesOn first ']' then
      let j ← i.field f
      return (f.name, j) :: (← i.positions false fields)
    else
      let js ← orMismatch (complete? (f :: fields) [])
      advance
      return js

/-- What follows a key of an object that gives a record. -/
def entry (i : Inner) (bound : Nat) (fields : List (RecordField Shape)) (strict : Bool) (found : List (String × Json))
    (key : String) : Scan (List (String × Json)) := do
  match fields.find? (·.name = key) with
  | some f =>
    if found.any (·.1 = key) then throw .mismatch
    take ':'
    return (key, ← i.field f) :: found
  | none =>
    if strict then throw .mismatch
    take ':'
    skip bound
    return found

/-- What follows a key of an object that gives a tagged record: its form, or any value. -/
def taggedEntry {α : Type} (i : Inner) (tag : String) (forms : List (String × α))
    (found : Option (String × α) × List (String × Tree)) (key : String) :
    Scan (Option (String × α) × List (String × Tree)) := do
  if key = tag then
    if found.1.isSome then throw .mismatch
    take ':'
    return (some (← simple (Manner.whole.form? forms)), found.2)
  else
    take ':'
    return (found.1, (key, ← i.tree) :: found.2)

/-- A variant given under its name. -/
def case (i : Inner) (words : List String) (cases : List (String × Shape))
    (forms : List (String × List (RecordField Shape))) : Scan Json := do
  let key ← Scan.text
  if words.contains key then
    take ':'
    simple isNull?
    return .text key
  else
    let shape ← orMismatch <| ((cases.find? (·.1 = key)).map (·.2)).or
      ((forms.find? (·.1 = key)).map fun form => .record form.2 false)
    take ':'
    return .object [(key, ← i.value shape)]

end Inner

/-! ## Values -/

/-- Reads a variant that is not in an object: one of its words. -/
def readWord (words : List String) : Scan Json := do
  if (← peek) = '"' then
    let s ← Scan.text
    if words.contains s then return .text s else throw .mismatch
  else throw .malformed

/-- Reads a value of a shape, with the readers of what is inside it. -/
def readNode (bound : Nat) (root : Shape) (inner : Option Inner) (shape : Shape) : Scan Json := do
  match shape.untie root, Bracket.ofOpening? (← peek) with
  | .list item, some .array =>
    let i ← enter inner
    return .array (← items (i.value item) true [] bound)
  | .dictionary, some .object =>
    let i ← enter inner
    let found ← entries (fun found key => do
      take ':'
      return (key, ← i.value .text) :: found) true ([] : List (String × Json)) bound
    return .object found.reverse
  | .record fields _, some .array =>
    let i ← enter inner
    return .object (← i.positions true fields)
  | .record fields strict, some .object =>
    let i ← enter inner
    let found ← entries (i.entry bound fields strict) true [] bound
    return .object (← orMismatch (complete? fields found))
  | .variant words cases forms, some .object =>
    let i ← enter inner
    let j ← i.case words cases forms
    take '\x7d'
    return j
  | .variant words _ _, _ => readWord words
  | .tagged tag forms, some .array =>
    let i ← enter inner
    if ← goesOn true ']' then
      let (word, fields) ← simple (Manner.whole.form? forms)
      let rest ← items i.tree false [] bound
      let js ← orMismatch (ofPositions? root .part fields rest)
      return .object ((tag, .text word) :: js)
    else throw .mismatch
  | .tagged tag forms, some .object =>
    let i ← enter inner
    let (form, found) ← entries (i.taggedEntry tag forms) true (none, []) bound
    let (word, fields) ← orMismatch form
    let js ← orMismatch ((ofEntries? root .part fields false [] found.reverse).bind (complete? fields))
    return .object ((tag, .text word) :: js)
  | shape, _ => simple (ofTree? root .whole shape)

/-- Reads a value of a shape, `root` being the shape of recursive values, where `depth` more levels of containers may
be entered. -/
def read (bound : Nat) (root : Shape) : (depth : Nat) → Shape → Scan Json
  | 0, shape => readNode bound root none shape
  | depth + 1, shape => readNode bound root (some ⟨read bound root depth, tree bound depth⟩) shape

/-- Reads a value of a shape from its text. -/
def readText (root shape : Shape) (s : String) : Except Problem Json :=
  readAll (fun bound => read bound root maxDepth shape) s

end Exonym.Shape
