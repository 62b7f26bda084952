import Exonym.Identity

/-!
# References to types

A reference is an occurrence of a type in a declaration: a named definition with its arguments, a generic
parameter, an array, a pointer, a by-reference occurrence, or a type nested in another one.

Functions on references come in pairs, one for a reference and one (`...All`) for a list of them, so that both
are plain recursions on the data; each list companion is shown to be the map of the other.

Main statements:

* `TypeRef.bare_bare`: dropping tokens twice drops them once, so `TypeRef.same` is an equivalence.
* `TypeRef.mentionsAll_eq`, `TypeRef.textAll_eq`, `TypeRef.bareAll_eq`: what the list companions are.
-/

namespace Exonym

/-- What a named reference points at: a definition, by its module, namespace, plain name and arity. -/
structure TypeName where
  module : String
  «namespace» : String
  name : String
  arity : UInt32
  deriving DecidableEq, Repr, Inhabited

/-- The character between a name and its arity. -/
def arityMark : Char := '\x60'

namespace TypeName

/-- The name with its arity mark; a definition without parameters has none. -/
def sourceName (n : TypeName) : String :=
  if n.arity = 0 then n.name else n.name ++ arityMark.toString ++ toString n.arity.toNat

def qualify (n : TypeName) (name : String) : String :=
  if n.namespace = "" then name else n.namespace ++ "." ++ name

/-- The name with namespace and arity mark. -/
def fullName (n : TypeName) : String :=
  n.qualify n.sourceName

/-- The identity of the definition. -/
def id (n : TypeName) : TypeId :=
  ⟨n.module, n.fullName⟩

end TypeName

/-- A generic parameter: the type or method that declares it, and its position there. -/
structure ParamKey where
  owner : SymbolId
  position : UInt32
  deriving DecidableEq, Repr, Inhabited

namespace ParamKey

def bare (k : ParamKey) : ParamKey :=
  { k with owner := k.owner.bare }

/-- Whether two keys mean one parameter. -/
def same (a b : ParamKey) : Bool :=
  a.bare = b.bare

@[simp] theorem bare_bare (k : ParamKey) : k.bare.bare = k.bare := by simp [bare]

end ParamKey

/-- An occurrence of a type. -/
inductive TypeRef where
  /-- A definition with its arguments; an open reference has none. -/
  | named (target : TypeName) (args : List TypeRef) (isValueType : Bool)
  /-- A generic parameter, with the constraints it was declared with. -/
  | param (key : ParamKey) (name : String) (constraints : List TypeRef)
  | array (element : TypeRef) (rank : UInt32)
  | pointer (pointee : TypeRef) (depth : UInt32)
  | byRef (referenced : TypeRef)
  /-- A type nested in the one that `declaring` points at. -/
  | nested (declaring : TypeRef) (name : String)
  deriving Repr, Inhabited

namespace TypeRef

/-- A reference to a definition without parameters. -/
def plain (module «namespace» name : String) : TypeRef :=
  .named ⟨module, «namespace», name, 0⟩ [] false

/-- A reference to a definition with as many parameters as there are arguments. -/
def generic (module «namespace» name : String) (args : List TypeRef) : TypeRef :=
  .named ⟨module, «namespace», name, UInt32.ofNat args.length⟩ args false

/-- The reference marked as one to a value type, if it is a named one. -/
def asValueType : TypeRef → TypeRef
  | .named target args _ => .named target args true
  | r => r

/-! ## Equality -/

mutual

/-- Whether two references are equal, tokens included. -/
def beq : TypeRef → TypeRef → Bool
  | .named t as v, .named t' as' v' => t = t' && v = v' && beqAll as as'
  | .param k n cs, .param k' n' cs' => k = k' && n = n' && beqAll cs cs'
  | .array e r, .array e' r' => r = r' && beq e e'
  | .pointer p d, .pointer p' d' => d = d' && beq p p'
  | .byRef r, .byRef r' => beq r r'
  | .nested d n, .nested d' n' => n = n' && beq d d'
  | _, _ => false

def beqAll : List TypeRef → List TypeRef → Bool
  | [], [] => true
  | a :: as, b :: bs => beq a b && beqAll as bs
  | _, _ => false

end

mutual

theorem beq_iff : ∀ {a b : TypeRef}, a.beq b = true ↔ a = b
  | .named _ as _, b => by cases b <;> simp [beq, @beqAll_iff as, and_assoc]; grind
  | .param _ _ cs, b => by cases b <;> simp [beq, @beqAll_iff cs, and_assoc]
  | .array e _, b => by cases b <;> simp [beq, @beq_iff e, and_comm]
  | .pointer p _, b => by cases b <;> simp [beq, @beq_iff p, and_comm]
  | .byRef r, b => by cases b <;> simp [beq, @beq_iff r]
  | .nested d _, b => by cases b <;> simp [beq, @beq_iff d, and_comm]

theorem beqAll_iff : ∀ {as bs : List TypeRef}, beqAll as bs = true ↔ as = bs
  | [], bs => by cases bs <;> simp [beqAll]
  | a :: as, bs => by cases bs <;> simp [beqAll, @beq_iff a, @beqAll_iff as]

end

instance : DecidableEq TypeRef := fun a b =>
  if h : beq a b = true then .isTrue (beq_iff.1 h) else .isFalse fun e => h (beq_iff.2 e)

mutual

/-- The reference with the tokens of all parameter owners dropped. -/
def bare : TypeRef → TypeRef
  | .named t args v => .named t (bareAll args) v
  | .param k n cs => .param k.bare n (bareAll cs)
  | .array e r => .array e.bare r
  | .pointer p d => .pointer p.bare d
  | .byRef r => .byRef r.bare
  | .nested d n => .nested d.bare n

def bareAll : List TypeRef → List TypeRef
  | [] => []
  | r :: rest => r.bare :: bareAll rest

end

/-- Whether two references are equal up to tokens. -/
def same (a b : TypeRef) : Bool :=
  a.bare = b.bare

theorem bareAll_eq (rs : List TypeRef) : bareAll rs = rs.map bare := by
  induction rs with
  | nil => rfl
  | cons r rest ih => simp [bareAll, ih]

mutual

@[simp] theorem bare_bare : ∀ r : TypeRef, r.bare.bare = r.bare
  | .named _ args _ => by simp [bare, bareAll_bareAll args]
  | .param _ _ cs => by simp [bare, bareAll_bareAll cs]
  | .array e _ => by simp [bare, bare_bare e]
  | .pointer p _ => by simp [bare, bare_bare p]
  | .byRef r => by simp [bare, bare_bare r]
  | .nested d _ => by simp [bare, bare_bare d]

theorem bareAll_bareAll : ∀ rs : List TypeRef, bareAll (bareAll rs) = bareAll rs
  | [] => rfl
  | r :: rest => by simp [bareAll, bare_bare r, bareAll_bareAll rest]

end

theorem same_iff {a b : TypeRef} : a.same b = true ↔ a.bare = b.bare := by simp [same]

@[simp] theorem same_refl (r : TypeRef) : r.same r = true := by simp [same]

/-! ## What a reference points at -/

/-- The identity of the definition, for named and nested references. -/
def id? : TypeRef → Option TypeId
  | .named target _ _ => some target.id
  | .nested declaring name =>
    declaring.id?.map fun outer => ⟨outer.module, outer.fullName ++ "+" ++ name⟩
  | _ => none

/-- The reference without the by-reference wrappers around it. -/
def eraseByRef : TypeRef → TypeRef
  | .byRef r => r.eraseByRef
  | r => r

def isByRef : TypeRef → Bool
  | .byRef _ => true
  | _ => false

/-- The plain name, without namespace and arity mark, of what the reference is about. -/
def shortName : TypeRef → String
  | .named target _ _ => target.name
  | .nested _ name => ((Cut.textFirst? arityMark name).map (·.1)).getD name
  | .param _ name _ => name
  | .array element _ => element.shortName
  | .pointer pointee _ => pointee.shortName
  | .byRef referenced => referenced.shortName

mutual

/-- The definitions a reference mentions, outermost first. Constraints belong to the declaration of a
parameter and not to its occurrences, so they are not looked at. -/
def mentions : TypeRef → List TypeId
  | .named target args _ => target.id :: mentionsAll args
  | .nested declaring name => (id? (.nested declaring name)).toList ++ declaring.mentions
  | .array element _ => element.mentions
  | .pointer pointee _ => pointee.mentions
  | .byRef referenced => referenced.mentions
  | .param .. => []

def mentionsAll : List TypeRef → List TypeId
  | [] => []
  | r :: rest => r.mentions ++ mentionsAll rest

end

theorem mentionsAll_eq (rs : List TypeRef) : mentionsAll rs = rs.flatMap mentions := by
  induction rs with
  | nil => rfl
  | cons r rest ih => simp [mentionsAll, ih]

/-! ## Text -/

mutual

/-- The canonical text, as it stands in signatures. A closed reference shows its arguments in place of the
arity mark; a parameter shows its position, after one mark for a type's and two for a method's. -/
def text : TypeRef → String
  | .named target [] _ => target.fullName
  | .named target args _ => target.qualify target.name ++ "<" ++ ",".intercalate (textAll args) ++ ">"
  | .param ⟨.type _, position⟩ _ _ => "!" ++ toString position.toNat
  | .param ⟨.member _, position⟩ _ _ => "!!" ++ toString position.toNat
  | .array element rank => element.text ++ "[" ++ .ofList (.replicate (rank.toNat - 1) ',') ++ "]"
  | .pointer pointee depth => pointee.text ++ .ofList (.replicate (max depth.toNat 1) '*')
  | .byRef referenced => referenced.text ++ "&"
  | .nested declaring name => declaring.text ++ "+" ++ name

def textAll : List TypeRef → List String
  | [] => []
  | r :: rest => r.text :: textAll rest

end

theorem textAll_eq (rs : List TypeRef) : textAll rs = rs.map text := by
  induction rs with
  | nil => rfl
  | cons r rest ih => simp [textAll, ih]

end TypeRef

end Exonym
