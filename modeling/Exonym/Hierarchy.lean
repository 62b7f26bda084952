import Exonym.Graph
import Exonym.TypeRef.Closing

/-!
# The interface hierarchy

From a reference one step leads to each interface of its definition, with the arguments of the reference put
in for the parameters of the definition. A walk visits everything that can be reached, depth first, the first
declared interface before the others, and looks at each reference once.

A definition may inherit from ever larger instances of itself, so a walk has a budget: the number of references
it may look at.

Main statements:

* `Hierarchy.run_eq_of_le`: a larger budget gives the same answer wherever a smaller one gives one.
-/

namespace Exonym

inductive HierarchyError where
  /-- A reference has arguments, but not as many as its definition has parameters. -/
  | arityMismatch (reference : TypeRef) (expected found : Nat)
  /-- The walk did not come to an end within its budget. -/
  | exhausted (budget : Nat)
  deriving Repr

def HierarchyError.message : HierarchyError → String
  | .arityMismatch reference expected found =>
    reference.text ++ " supplies " ++ toString found ++ " type arguments but the definition declares " ++
      toString expected
  | .exhausted budget => "the interface hierarchy does not end within " ++ toString budget ++ " references"

/-- A graph whose interface lists are walked, with the budget of one walk. -/
structure Hierarchy where
  graph : SymbolGraph
  budget : Nat

/-- What a walk has found: the references reached, in the order in which they were looked at, and those of them
that the graph does not define. -/
structure Ancestors where
  closed : List TypeRef
  unresolved : List TypeRef
  deriving Repr, Inhabited

def Ancestors.contains (a : Ancestors) (r : TypeRef) : Bool :=
  a.closed.any (·.same r)

/-- A walk under way: what it has come across, what it has still to look at, and what it has found. -/
structure Walk where
  visited : List TypeRef
  pending : List TypeRef
  found : Ancestors

namespace Walk

def start (r : TypeRef) : Walk :=
  ⟨[r], [r], ⟨[], []⟩⟩

/-- Puts a reference on top of what is to be looked at, unless the walk has come across it before. -/
def push (w : Walk) (r : TypeRef) : Walk :=
  if w.visited.any (·.same r) then w
  else { w with visited := r :: w.visited, pending := r :: w.pending }

end Walk

namespace Hierarchy

/-- What a reference with arguments puts in for the parameters of its definition. -/
def closing (t : TypeSymbol) : TypeRef → Substitution
  | .named _ args _ => .forArguments t.owner args
  | _ => .empty

/-- The references one step away from a reference to the definition `t`. -/
def parents (t : TypeSymbol) (r : TypeRef) : List TypeRef :=
  t.interfaces.map (closing t r).apply

/-- A named reference has no arguments or one for each parameter of its definition. -/
def arityFault? (t : TypeSymbol) : TypeRef → Option HierarchyError
  | .named target args isValueType =>
    if args.length = 0 ∨ args.length = t.arity then none
    else some (.arityMismatch (.named target args isValueType) t.arity args.length)
  | _ => none

/-- The fault of a reference, if the graph defines what it points at. -/
def checkArity (h : Hierarchy) (r : TypeRef) : Except HierarchyError Unit :=
  match (h.graph.resolve? r).bind (arityFault? · r) with
  | some e => .error e
  | none => .ok ()

/-- Looks at one reference, which has been taken off the pending ones. The parents are pushed last to first, so
that the first one is looked at next. -/
def look (h : Hierarchy) (start : TypeRef) (w : Walk) (r : TypeRef) : Except HierarchyError Walk :=
  let isStart := r.same start
  let found := if isStart then w.found else { w.found with closed := w.found.closed ++ [r] }
  match h.graph.resolve? r with
  | none =>
    .ok { w with found := if isStart then found else { found with unresolved := found.unresolved ++ [r] } }
  | some t =>
    match arityFault? t r with
    | some e => .error e
    | none => .ok ((parents t r).reverse.foldl Walk.push { w with found := found })

/-- Looks at what is pending until nothing is left. -/
def run (h : Hierarchy) (start : TypeRef) : Nat → Walk → Except HierarchyError Ancestors
  | 0, w => if w.pending.isEmpty then .ok w.found else .error (.exhausted h.budget)
  | budget + 1, w =>
    match w.pending with
    | [] => .ok w.found
    | r :: rest =>
      match h.look start { w with pending := rest } r with
      | .error e => .error e
      | .ok w => h.run start budget w

/-- Everything that can be reached from a reference, the reference itself left out. -/
def ancestors (h : Hierarchy) (start : TypeRef) : Except HierarchyError Ancestors :=
  h.run start h.budget (.start start)

/-- The walk has an answer of its own: it did not stop for want of budget. -/
def Settled : Except HierarchyError Ancestors → Prop
  | .error (.exhausted _) => False
  | _ => True

theorem run_eq_of_le {h : Hierarchy} {start : TypeRef} {small large : Nat} {w : Walk}
    (hle : small ≤ large) (hs : Settled (h.run start small w)) :
    h.run start large w = h.run start small w := by
  induction small generalizing large w with
  | zero =>
    cases hp : w.pending with
    | nil => cases large <;> simp [run, hp]
    | cons r rest => simp [run, hp, Settled] at hs
  | succ small ih =>
    cases large with
    | zero => omega
    | succ large =>
      cases hp : w.pending with
      | nil => simp [run, hp]
      | cons r rest =>
        simp only [run, hp] at hs ⊢
        cases hl : h.look start { w with pending := rest } r with
        | error e => rfl
        | ok w' =>
          simp only [hl] at hs ⊢
          exact ih (by omega) hs

end Hierarchy

end Exonym
