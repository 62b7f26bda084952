import Exonym.Json.Tree

/-!
# Expected forms of values

A `Shape` says what a value is to look like. Reading a tree by a shape gives the canonical form of a value: every
field of a record is there, in the order of the shape, what was left out has its default, and what nobody asked for
is gone. A canonical value is then easily taken apart.

Main statements:

* `Shape.ofTree?_number`: a number of 32 bits is read as itself.
* `Shape.complete?_names`: a completed record has the fields of its shape, in their order.
-/

namespace Exonym

/-- A field of a record. A field without a default has to be there. -/
structure RecordField (σ : Type) where
  name : String
  shape : σ
  /-- `null` is accepted in place of a value. -/
  nullable : Bool
  default : Option Json

inductive Shape where
  | text
  /-- A whole number that fits 32 bits. -/
  | number
  | flag
  | list (item : Shape)
  /-- Texts by names. -/
  | dictionary
  /-- An object, or an array with the values of its fields. In a strict record no other field may be. -/
  | record (fields : List (RecordField Shape)) (strict : Bool)
  /-- One of several words, or under its name a value of one of several shapes, or one of several records. -/
  | variant (words : List String) (cases : List (String × Shape))
      (forms : List (String × List (RecordField Shape)))
  /-- A record whose form is told by the word in the field `tag`. -/
  | tagged (tag : String) (forms : List (String × List (RecordField Shape)))
  /-- The shape that a recursive value is read by. -/
  | knot

namespace Shape

/-- One of several words. -/
def choice (words : List String) : Shape := .variant words [] []

/-- The shape itself, or the one that a recursive value is read by. -/
def untie (shape root : Shape) : Shape :=
  match shape with
  | .knot => root
  | shape => shape

/-! ## Fields -/

def required (name : String) (shape : Shape) : RecordField Shape := ⟨name, shape, false, none⟩

/-- A field that may be left out. -/
def defaulted (name : String) (shape : Shape) (value : Json) : RecordField Shape := ⟨name, shape, false, some value⟩

/-- A field that may be left out or `null`. -/
def optional (name : String) (shape : Shape) : RecordField Shape := ⟨name, shape, true, some .null⟩

section Fields

variable (name : String) (shape : Shape) (value : Json)

@[simp] theorem required_name : (required name shape).name = name := rfl
@[simp] theorem required_shape : (required name shape).shape = shape := rfl
@[simp] theorem required_nullable : (required name shape).nullable = false := rfl
@[simp] theorem required_default : (required name shape).default = none := rfl
@[simp] theorem defaulted_name : (defaulted name shape value).name = name := rfl
@[simp] theorem defaulted_shape : (defaulted name shape value).shape = shape := rfl
@[simp] theorem defaulted_nullable : (defaulted name shape value).nullable = false := rfl
@[simp] theorem defaulted_default : (defaulted name shape value).default = some value := rfl
@[simp] theorem optional_name : (Shape.optional name shape).name = name := rfl
@[simp] theorem optional_shape : (Shape.optional name shape).shape = shape := rfl
@[simp] theorem optional_nullable : (Shape.optional name shape).nullable = true := rfl
@[simp] theorem optional_default : (Shape.optional name shape).default = some .null := rfl

end Fields

/-- All fields of a record, from those that were read. What is not there has its default. -/
def complete? (fields : List (RecordField Shape)) (found : List (String × Json)) : Option (List (String × Json)) :=
  fields.mapM fun f => (((found.find? (·.1 = f.name)).map (·.2)).or f.default).map fun j => (f.name, j)

theorem complete?_names {fields : List (RecordField Shape)} {found js : List (String × Json)}
    (h : complete? fields found = some js) : js.map (·.1) = fields.map (·.name) := by
  unfold complete? at h
  induction fields generalizing js with
  | nil => simp_all
  | cons f fields ih =>
    simp only [List.mapM_cons, Option.bind_eq_bind, Option.bind_eq_some_iff] at h
    obtain ⟨j, hj, rest, hrest, hjs⟩ := h
    obtain ⟨_, _, rfl⟩ := Option.map_eq_some_iff.1 hj
    cases hjs
    simp [ih hrest]

/-! ## Reading -/

/-- The ways of reading a tree differ in what may stand for a word, a tag or a record. -/
inductive Manner where
  /-- A value that stands for itself. -/
  | whole
  /-- A part of a tagged record. There a tag may be given by its place among the forms, an empty object stands for
  nothing, and the record of a form may be given as an array. -/
  | part
  /-- A table of settings. There an empty table or array stands for nothing, and what an array has beyond the fields
  of a record is passed over. -/
  | table
  deriving DecidableEq, Repr

namespace Manner

/-- Whether a tree may stand for nothing at all under the name of a word. -/
def isNothing (m : Manner) : Tree → Bool
  | .null => m ≠ .table
  | .object [] => m ≠ .whole
  | .array [] => m = .table
  | _ => false

/-- Whether a tree may give the record of a form. -/
def givesForm (m : Manner) : Tree → Bool
  | .object _ => true
  | .array _ => m ≠ .whole
  | _ => false

/-- The form that a tag names. -/
def form? {α : Type} (m : Manner) (forms : List (String × α)) : Tree → Option (String × α)
  | .text word => forms.find? (·.1 = word)
  | .int n => if m = .part && 0 ≤ n then forms[n.toNat]? else none
  | _ => none

end Manner

mutual

/-- Reads a tree by a shape, `root` being the shape of recursive values. -/
def ofTree? (root : Shape) (m : Manner) (shape : Shape) : Tree → Option Json
  | .text s =>
    match shape with
    | .text => some (.text s)
    | .variant words _ _ => if words.contains s then some (.text s) else none
    | _ => none
  | .int n =>
    match shape with
    | .number => if 0 ≤ n ∧ n < UInt32.size then some (.int n) else none
    | _ => none
  | .bool b =>
    match shape with
    | .flag => some (.bool b)
    | _ => none
  | .array items =>
    match shape.untie root with
    | .list item => (ofItems? root m item items).map .array
    | .record fields _ => (ofPositions? root m fields items).map .object
    | .tagged tag forms => ofTaggedArray? root m tag forms items
    | _ => none
  | .object entries =>
    match shape.untie root with
    | .dictionary => (ofDictionary? root m entries).map .object
    | .record fields strict => do
      let found ← ofEntries? root m fields strict [] entries
      (complete? fields found).map .object
    | .tagged tag forms => do
      let [(_, t)] := entries.filter (·.1 = tag) | none
      let (word, fields) ← m.form? forms t
      let found ← ofEntries? root .part fields false [] entries
      (complete? fields found).map fun fields => .object ((tag, .text word) :: fields)
    | .variant words cases forms => ofCase? root m words cases forms entries
    | _ => none
  | _ => none

def ofItems? (root : Shape) (m : Manner) (item : Shape) : List Tree → Option (List Json)
  | [] => some []
  | t :: rest => do
    let j ← ofTree? root m item t
    let js ← ofItems? root m item rest
    return j :: js

/-- The values of a record's fields, one after the other. -/
def ofPositions? (root : Shape) (m : Manner) (fields : List (RecordField Shape)) :
    List Tree → Option (List (String × Json))
  | [] => complete? fields []
  | t :: rest =>
    match fields with
    | [] => if m = .table then some [] else none
    | f :: fields => do
      let j ← if f.nullable && t matches .null then some .null else ofTree? root m f.shape t
      let js ← ofPositions? root m fields rest
      return (f.name, j) :: js

/-- The tag and then the values of a tagged record's fields. -/
def ofTaggedArray? (root : Shape) (m : Manner) (tag : String) (forms : List (String × List (RecordField Shape))) :
    List Tree → Option Json
  | [] => none
  | t :: rest => do
    let (word, fields) ← m.form? forms t
    let js ← ofPositions? root .part fields rest
    return .object ((tag, .text word) :: js)

/-- The fields of an object that a record has; `seen` are the names of those before. -/
def ofEntries? (root : Shape) (m : Manner) (fields : List (RecordField Shape)) (strict : Bool) (seen : List String) :
    List (String × Tree) → Option (List (String × Json))
  | [] => some []
  | (key, t) :: rest =>
    match fields.find? (·.name = key) with
    | none => if strict then none else ofEntries? root m fields strict seen rest
    | some f => do
      if seen.contains key then none
      let j ← if f.nullable && t matches .null then some .null else ofTree? root m f.shape t
      let js ← ofEntries? root m fields strict (key :: seen) rest
      return (key, j) :: js

def ofDictionary? (root : Shape) (m : Manner) : List (String × Tree) → Option (List (String × Json))
  | [] => some []
  | (key, t) :: rest => do
    let j ← ofTree? root m .text t
    let js ← ofDictionary? root m rest
    return (key, j) :: js

/-- The one entry of an object that stands for a variant. -/
def ofCase? (root : Shape) (m : Manner) (words : List String) (cases : List (String × Shape))
    (forms : List (String × List (RecordField Shape))) : List (String × Tree) → Option Json
  | [(key, t)] =>
    if words.contains key then if m.isNothing t then some (.text key) else none
    else match cases.find? (·.1 = key), forms.find? (·.1 = key) with
      | some (_, shape), _ => (ofTree? root m shape t).map fun j => .object [(key, j)]
      | none, some (_, fields) =>
        if m.givesForm t then (ofTree? root m (.record fields false) t).map fun j => .object [(key, j)] else none
      | none, none => none
  | _ => none

end

theorem ofTree?_number (root : Shape) (m : Manner) (n : UInt32) :
    ofTree? root m .number (.ofJson (.ofWord n)) = some (.ofWord n) := by
  have h : (0 : Int) ≤ n.toNat ∧ (n.toNat : Int) < UInt32.size :=
    ⟨Int.natCast_nonneg _, Int.ofNat_lt.2 n.toNat_lt_size⟩
  simp only [Json.ofWord, Tree.ofJson, ofTree?]
  exact if_pos h

end Shape

end Exonym
