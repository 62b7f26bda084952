import Exonym.Identity

/-!
# Scopes of names

A scope is a place in which names are unique; names in different scopes never meet.

Main statements:

* `Scope.compare_eq_iff`: the order of scopes separates distinct scopes.
-/

namespace Exonym

/-- The side of a type or view that a scope covers. -/
inductive Surface where
  | instanceSide
  | staticSide
  deriving DecidableEq, Repr, Inhabited

namespace Surface

def of (isStatic : Bool) : Surface :=
  if isStatic then .staticSide else .instanceSide

def isStatic (s : Surface) : Bool :=
  s = .staticSide

def text : Surface → String
  | .instanceSide => "instance"
  | .staticSide => "static"

end Surface

inductive Scope where
  /-- The types of a namespace: all of them, or for the public facade those that are exported. -/
  | «namespace» (name : String) (isInternal : Bool)
  /-- The members on one surface of a type. -/
  | type (id : TypeId) (surface : Surface)
  /-- The members of a type that are reached through one interface. -/
  | view (owner interface : TypeId) (surface : Surface)
  /-- The names that a namespace uses for types of other namespaces, besides those of its own. -/
  | imports (target : String)
  deriving DecidableEq, Repr, Inhabited

namespace Scope

/-- All types of a namespace. -/
def internal (name : String) : Scope := .namespace name true

/-- The exported types of a namespace. -/
def facade (name : String) : Scope := .namespace name false

def ofSurface (id : TypeId) (isStatic : Bool) : Scope := .type id (.of isStatic)

def ofView (owner interface : TypeId) (isStatic : Bool) : Scope := .view owner interface (.of isStatic)

/-- The text under which a scope appears in decisions and messages. -/
def key : Scope → String
  | .namespace name isInternal => "ns:" ++ name ++ ":" ++ (if isInternal then "internal" else "public")
  | .type id surface => "type:" ++ id.text ++ "#" ++ surface.text
  | .view owner interface surface => "view:" ++ owner.text ++ ":" ++ interface.text ++ "#" ++ surface.text
  | .imports target => "import:" ++ target

def isStatic : Scope → Bool
  | .type _ surface => surface.isStatic
  | .view _ _ surface => surface.isStatic
  | .namespace .. | .imports _ => false

def isView : Scope → Bool
  | .view .. => true
  | _ => false

/-- The kind of a scope, as a number: namespaces, types, views, imports. -/
def rank : Scope → Nat
  | .namespace _ _ => 0
  | .type _ _ => 1
  | .view _ _ _ => 2
  | .imports _ => 3

/-- Kinds in the order of their ranks, scopes of one kind by what they are made of. -/
def order : Scope → Scope → Ordering
  | .namespace a i, .namespace b j => (compare a b).then (compare i j)
  | .type a s, .type b t => (compare a b).then (compare s.isStatic t.isStatic)
  | .view a i s, .view b j t => ((compare a b).then (compare i j)).then (compare s.isStatic t.isStatic)
  | .imports a, .imports b => compare a b
  | a, b => compare a.rank b.rank

instance : Ord Scope := ⟨order⟩

theorem surface_isStatic_inj {s t : Surface} : s.isStatic = t.isStatic ↔ s = t := by
  cases s <;> cases t <;> decide

theorem compare_eq_iff {a b : Scope} : compare a b = .eq ↔ a = b := by
  change order a b = .eq ↔ a = b
  cases a <;> cases b <;>
    simp [order, rank, Ordering.then_eq_eq, surface_isStatic_inj, and_assoc]

end Scope

end Exonym
