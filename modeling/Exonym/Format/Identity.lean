import Exonym.Identity
import Exonym.Json.Shape

/-!
# The written form of identities

For every type of the loader format there is a shape, a writer `toJson`, and a reader `ofJson?` for values in the
canonical form of the shape.

Main statements:

* `TypeId.ofJson?_toJson`, `MemberId.ofJson?_toJson`, `SymbolId.ofJson?_toJson`: what is written is read back.
-/

namespace Exonym

namespace Json

def word? : Json → Option UInt32
  | .int n => if 0 ≤ n ∧ n < UInt32.size then some (.ofNat n.toNat) else none
  | _ => none

/-- A value that may be `null`. -/
def optional? {α : Type} (read : Json → Option α) : Json → Option (Option α)
  | .null => some none
  | j => (read j).map some

def text? : Json → Option String
  | .text s => some s
  | _ => none

def flag? : Json → Option Bool
  | .bool b => some b
  | _ => none

def list? {α : Type} (read : Json → Option α) : Json → Option (List α)
  | .array items => items.mapM read
  | _ => none

@[simp] theorem word?_ofWord (n : UInt32) : word? (ofWord n) = some n := by
  have h : (0 : Int) ≤ n.toNat ∧ (n.toNat : Int) < UInt32.size :=
    ⟨Int.natCast_nonneg _, Int.ofNat_lt.2 n.toNat_lt_size⟩
  simp only [ofWord, word?]
  rw [if_pos h]
  simp

@[simp] theorem optional?_ofOption {α : Type} {read : Json → Option α} {write : α → Json}
    (h : ∀ a, read (write a) = some a) (hn : ∀ a, write a ≠ .null) (o : Option α) :
    optional? read (ofOption write o) = some o := by
  cases o with
  | none => rfl
  | some a =>
    have := h a
    have hw := hn a
    simp only [ofOption]
    cases hj : write a <;> simp_all [optional?]

@[simp] theorem list?_ofList {α : Type} {read : Json → Option α} {write : α → Json}
    (h : ∀ a, read (write a) = some a) (items : List α) : list? read (ofList write items) = some items := by
  simp only [ofList, list?]
  induction items with
  | nil => rfl
  | cons a rest ih => simp [List.mapM_cons, h a, ih]

end Json

open Shape in
def TypeId.shape : Shape :=
  .record [required "module" .text, required "full_name" .text] false

def TypeId.toJson (id : TypeId) : Json :=
  .object [("module", .text id.module), ("full_name", .text id.fullName)]

def TypeId.ofJson? : Json → Option TypeId
  | .object [(_, .text module), (_, .text fullName)] => some ⟨module, fullName⟩
  | _ => none

open Shape in
def MemberId.shape : Shape :=
  .record [required "module" .text, required "declaring_type" .text, required "member_name" .text,
    required "signature" .text, Shape.optional "token" .number] false

def MemberId.toJson (id : MemberId) : Json :=
  .object [("module", .text id.module), ("declaring_type", .text id.declaringType),
    ("member_name", .text id.name), ("signature", .text id.signature), ("token", .ofOption .ofWord id.token)]

def MemberId.ofJson? : Json → Option MemberId
  | .object [(_, .text module), (_, .text declaringType), (_, .text name), (_, .text signature), (_, token)] => do
    return ⟨module, declaringType, name, signature, ← token.optional? Json.word?⟩
  | _ => none

def SymbolId.shape : Shape :=
  .variant [] [("Type", TypeId.shape), ("Member", MemberId.shape)] []

def SymbolId.toJson : SymbolId → Json
  | .type id => .object [("Type", id.toJson)]
  | .member id => .object [("Member", id.toJson)]

def SymbolId.ofJson? : Json → Option SymbolId
  | .object [("Type", j)] => (TypeId.ofJson? j).map .type
  | .object [("Member", j)] => (MemberId.ofJson? j).map .member
  | _ => none

/-- The owner of a generic parameter: a type or a method. -/
def SymbolId.ownerShape : Shape :=
  .variant [] [("Type", TypeId.shape), ("Method", MemberId.shape)] []

def SymbolId.ownerToJson : SymbolId → Json
  | .type id => .object [("Type", id.toJson)]
  | .member id => .object [("Method", id.toJson)]

def SymbolId.ownerOfJson? : Json → Option SymbolId
  | .object [("Type", j)] => (TypeId.ofJson? j).map .type
  | .object [("Method", j)] => (MemberId.ofJson? j).map .member
  | _ => none

@[simp] theorem TypeId.ofJson?_toJson (id : TypeId) : ofJson? id.toJson = some id := rfl

@[simp] theorem MemberId.ofJson?_toJson (id : MemberId) : ofJson? id.toJson = some id := by
  have : (Json.ofOption Json.ofWord id.token).optional? Json.word? = some id.token :=
    Json.optional?_ofOption Json.word?_ofWord (by simp [Json.ofWord]) _
  simp [toJson, ofJson?, this]

@[simp] theorem SymbolId.ofJson?_toJson (id : SymbolId) : ofJson? id.toJson = some id := by
  cases id <;> simp [toJson, ofJson?]

@[simp] theorem SymbolId.ownerOfJson?_ownerToJson (id : SymbolId) :
    ownerOfJson? id.ownerToJson = some id := by
  cases id <;> simp [ownerToJson, ownerOfJson?]

end Exonym
