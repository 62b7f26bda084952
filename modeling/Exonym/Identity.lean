import Exonym.Text.Cut

/-!
# Identities of types and members

A type is known by the module it comes from and its full name, a member by its declaring type, its name
and its signature. A member identity may also carry a metadata token, which takes no part in telling
members apart: `bare` drops it, and two identities are the same when their bare forms are equal.

Main statements:

* `TypeId.compare_eq_iff`: the order of type identities separates distinct identities.
* `MemberId.compare_eq_iff`, `SymbolId.compare_eq_iff`: the orders on members and on symbols separate
  exactly those that are not the same.
-/

namespace Exonym

/-- The module a type comes from and its full name, such as `System.Collections.Generic.List` with its arity mark. -/
structure TypeId where
  module : String
  fullName : String
  deriving DecidableEq, Repr, Inhabited

/-- Identity of a member, with the metadata token of one particular loading of it. -/
structure MemberId where
  module : String
  declaringType : String
  name : String
  signature : String
  token : Option UInt32
  deriving DecidableEq, Repr, Inhabited

/-- Identity of anything that can be named. -/
inductive SymbolId where
  | type (id : TypeId)
  | member (id : MemberId)
  deriving DecidableEq, Repr, Inhabited

namespace TypeId

/-- `module:full name`. -/
def text (id : TypeId) : String :=
  id.module ++ ":" ++ id.fullName

/-- The full name of the outermost declaring type; nested types are joined by `+`. -/
def outerName (id : TypeId) : String :=
  ((Cut.textFirst? '+' id.fullName).map (·.1)).getD id.fullName

/-- What stands before the last dot of the outermost type's name; empty in the global namespace. -/
def «namespace» (id : TypeId) : String :=
  ((Cut.textLast? '.' id.outerName).map (·.1)).getD ""

/-- The full name without its namespace; nested types keep the names of the types around them. -/
def simpleName (id : TypeId) : String :=
  if id.namespace = "" then id.fullName
  else .ofList (id.fullName.toList.drop (id.namespace.toList.length + 1))

/-- By module, then by full name. -/
def order : TypeId → TypeId → Ordering :=
  compareLex (compareOn module) (compareOn fullName)

instance : Ord TypeId := ⟨order⟩

instance : Std.TransOrd TypeId :=
  inferInstanceAs (Std.TransCmp (compareLex (compareOn module) (compareOn fullName)))

theorem compare_eq_iff {a b : TypeId} : compare a b = .eq ↔ a = b := by
  change order a b = .eq ↔ a = b
  cases a; cases b
  simp only [order, compareLex, compareOn, Ordering.then_eq_eq, Std.compare_eq_iff_eq, mk.injEq]

instance : Std.LawfulEqOrd TypeId where
  compare_self := compare_eq_iff.2 rfl
  eq_of_compare := compare_eq_iff.1

end TypeId

namespace MemberId

/-- A member identity without a token. -/
def of (module declaringType name signature : String) : MemberId :=
  ⟨module, declaringType, name, signature, none⟩

/-- `module:declaring type::name` followed by the signature. -/
def text (id : MemberId) : String :=
  id.module ++ ":" ++ id.declaringType ++ "::" ++ id.name ++ id.signature

/-- The identity proper, without the token. -/
def bare (id : MemberId) : MemberId :=
  { id with token := none }

/-- Whether two identities are those of one member, whatever their tokens. -/
def same (a b : MemberId) : Bool :=
  a.bare = b.bare

def declaringTypeId (id : MemberId) : TypeId :=
  ⟨id.module, id.declaringType⟩

/-- The member of the same name and signature on another type; it has no token of its own. -/
def rebased (id : MemberId) (owner : TypeId) : MemberId :=
  of owner.module owner.fullName id.name id.signature

@[simp] theorem bare_bare (id : MemberId) : id.bare.bare = id.bare := rfl

theorem same_iff {a b : MemberId} : a.same b = true ↔ a.bare = b.bare := by simp [same]

/-- By module, declaring type, name and signature, in this order. -/
def order : MemberId → MemberId → Ordering :=
  compareLex (compareOn module) (compareLex (compareOn declaringType)
    (compareLex (compareOn name) (compareOn signature)))

instance : Ord MemberId := ⟨order⟩

instance : Std.TransOrd MemberId :=
  inferInstanceAs (Std.TransCmp (compareLex (compareOn module) (compareLex (compareOn declaringType)
    (compareLex (compareOn name) (compareOn signature)))))

theorem compare_eq_iff {a b : MemberId} : compare a b = .eq ↔ a.bare = b.bare := by
  change order a b = .eq ↔ a.bare = b.bare
  cases a; cases b
  simp [order, compareLex, compareOn, Ordering.then_eq_eq, bare]

end MemberId

namespace SymbolId

def text : SymbolId → String
  | .type id => id.text
  | .member id => id.text

def bare : SymbolId → SymbolId
  | .type id => .type id
  | .member id => .member id.bare

/-- Whether two identities are those of one symbol, whatever their tokens. -/
def same (a b : SymbolId) : Bool :=
  a.bare = b.bare

def type? : SymbolId → Option TypeId
  | .type id => some id
  | .member _ => none

def member? : SymbolId → Option MemberId
  | .type _ => none
  | .member id => some id

/-- The name the symbol has before any renaming. -/
def declaredName : SymbolId → String
  | .type id => id.simpleName
  | .member id => id.name

/-- All types come before all members. -/
def order : SymbolId → SymbolId → Ordering
  | .type a, .type b => compare a b
  | .type _, .member _ => .lt
  | .member _, .type _ => .gt
  | .member a, .member b => compare a b

instance : Ord SymbolId := ⟨order⟩

instance : Std.TransOrd SymbolId where
  eq_swap {a b} := by
    change order a b = (order b a).swap
    cases a <;> cases b <;> first | exact Std.OrientedOrd.eq_swap | rfl
  isLE_trans {a b c} := by
    change (order a b).isLE → (order b c).isLE → (order a c).isLE
    cases a <;> cases b <;> cases c <;> simp only [order] <;>
      first | exact Std.TransOrd.isLE_trans | simp

@[simp] theorem bare_bare (id : SymbolId) : id.bare.bare = id.bare := by cases id <;> rfl

theorem same_iff {a b : SymbolId} : a.same b = true ↔ a.bare = b.bare := by simp [same]

theorem compare_eq_iff {a b : SymbolId} : compare a b = .eq ↔ a.bare = b.bare := by
  change order a b = .eq ↔ a.bare = b.bare
  cases a <;> cases b <;> simp [order, bare, MemberId.compare_eq_iff]

end SymbolId

end Exonym
