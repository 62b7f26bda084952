import Exonym.Format.Identity
import Exonym.TypeRef

/-!
# The written form of references

A reference is a tagged record: the field `kind` says which of the six forms it has.

Main statements:

* `TypeRef.ofJson?_toJson`: what is written is read back, for references of any depth.
-/

namespace Exonym.TypeRef

open Shape in
/-- The shape of references; references inside it are read by the same shape. -/
def shape : Shape :=
  .tagged "kind" [
    ("Named", [required "module" .text, required "namespace" .text, required "name" .text,
      required "arity" .number, defaulted "type_args" (.list .knot) (.array []),
      defaulted "is_value_type" .flag (.bool false)]),
    ("GenericParameter", [required "owner" SymbolId.ownerShape, required "position" .number,
      required "name" .text, defaulted "constraints" (.list .knot) (.array [])]),
    ("Array", [required "element" .knot, required "rank" .number]),
    ("Pointer", [required "pointee" .knot, required "depth" .number]),
    ("ByRef", [required "referenced" .knot]),
    ("Nested", [required "declaring" .knot, required "nested_name" .text])]

mutual

def toJson : TypeRef → Json
  | .named target args isValueType =>
    .object [("kind", .text "Named"), ("module", .text target.module), ("namespace", .text target.namespace),
      ("name", .text target.name), ("arity", .ofWord target.arity), ("type_args", .array (toJsonAll args)),
      ("is_value_type", .bool isValueType)]
  | .param key name constraints =>
    .object [("kind", .text "GenericParameter"), ("owner", key.owner.ownerToJson),
      ("position", .ofWord key.position), ("name", .text name), ("constraints", .array (toJsonAll constraints))]
  | .array element rank =>
    .object [("kind", .text "Array"), ("element", element.toJson), ("rank", .ofWord rank)]
  | .pointer pointee depth =>
    .object [("kind", .text "Pointer"), ("pointee", pointee.toJson), ("depth", .ofWord depth)]
  | .byRef referenced => .object [("kind", .text "ByRef"), ("referenced", referenced.toJson)]
  | .nested declaring name =>
    .object [("kind", .text "Nested"), ("declaring", declaring.toJson), ("nested_name", .text name)]

def toJsonAll : List TypeRef → List Json
  | [] => []
  | r :: rest => r.toJson :: toJsonAll rest

end

mutual

def ofJson? : Json → Option TypeRef
  | .object [(_, .text "Named"), (_, .text module), (_, .text ns), (_, .text name), (_, arity),
      (_, .array args), (_, .bool isValueType)] => do
    return .named ⟨module, ns, name, ← arity.word?⟩ (← ofJsonAll? args) isValueType
  | .object [(_, .text "GenericParameter"), (_, owner), (_, position), (_, .text name),
      (_, .array constraints)] => do
    return .param ⟨← SymbolId.ownerOfJson? owner, ← position.word?⟩ name (← ofJsonAll? constraints)
  | .object [(_, .text "Array"), (_, element), (_, rank)] => do
    return .array (← ofJson? element) (← rank.word?)
  | .object [(_, .text "Pointer"), (_, pointee), (_, depth)] => do
    return .pointer (← ofJson? pointee) (← depth.word?)
  | .object [(_, .text "ByRef"), (_, referenced)] => do
    return .byRef (← ofJson? referenced)
  | .object [(_, .text "Nested"), (_, declaring), (_, .text name)] => do
    return .nested (← ofJson? declaring) name
  | _ => none

def ofJsonAll? : List Json → Option (List TypeRef)
  | [] => some []
  | j :: rest => do
    return (← ofJson? j) :: (← ofJsonAll? rest)

end

mutual

@[simp] theorem ofJson?_toJson : ∀ r : TypeRef, ofJson? r.toJson = some r
  | .named _ args _ => by simp [toJson, ofJson?, ofJsonAll?_toJsonAll args]
  | .param _ _ cs => by simp [toJson, ofJson?, ofJsonAll?_toJsonAll cs]
  | .array e _ => by simp [toJson, ofJson?, ofJson?_toJson e]
  | .pointer p _ => by simp [toJson, ofJson?, ofJson?_toJson p]
  | .byRef r => by simp [toJson, ofJson?, ofJson?_toJson r]
  | .nested d _ => by simp [toJson, ofJson?, ofJson?_toJson d]

theorem ofJsonAll?_toJsonAll : ∀ rs : List TypeRef, ofJsonAll? (toJsonAll rs) = some rs
  | [] => rfl
  | r :: rest => by simp [toJsonAll, ofJsonAll?, ofJson?_toJson r, ofJsonAll?_toJsonAll rest]

end

end Exonym.TypeRef
