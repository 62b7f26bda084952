import Exonym.Hierarchy

/-!
# Reducing a list of interfaces

An interface that a type lists is dropped when it is listed twice, or when another interface that is still
listed inherits from it. Interfaces are looked at in the order of the list, each against what remains at that
moment, so of two that inherit from each other the later one stays.

Main statements:

* `Reduction.candidates_sublist`: what is left after dropping repetitions is a sublist of the list.
* `Reduction.prune_kept_sublist`: what is kept is a sublist of the candidates.
-/

namespace Exonym

inductive PruneReason where
  /-- The reference is listed before. -/
  | duplicate
  /-- Another listed interface inherits from it. -/
  | inherited (through : TypeRef)
  deriving Repr

structure Pruned where
  reference : TypeRef
  reason : PruneReason
  deriving Repr

structure Reduction where
  /-- What remains, in the order of the list. -/
  kept : List TypeRef
  pruned : List Pruned
  /-- Listed interfaces that the graph does not define. -/
  unresolved : List TypeRef
  deriving Repr

namespace Reduction

/-- The remaining interfaces do not form a chain. -/
def isDiamond (r : Reduction) : Bool :=
  2 ≤ r.kept.length

/-- The listed references without repetitions, and what was dropped. -/
def candidates (seen : List TypeRef) : List TypeRef → List TypeRef × List Pruned
  | [] => ([], [])
  | r :: rest =>
    if seen.any (·.same r) then
      let (kept, pruned) := candidates seen rest
      (kept, ⟨r, .duplicate⟩ :: pruned)
    else
      let (kept, pruned) := candidates (r :: seen) rest
      (r :: kept, pruned)

/-- Goes through the candidates that are left, `before` holding those that have been kept; each comes with what
it inherits from. The first remaining candidate that inherits from one is the reason for dropping it. -/
def prune (before : List (TypeRef × Ancestors)) :
    List (TypeRef × Ancestors) → List TypeRef × List Pruned
  | [] => ([], [])
  | c :: rest =>
    match (before ++ rest).find? (·.2.contains c.1) with
    | some through =>
      let (kept, pruned) := prune before rest
      (kept, ⟨c.1, .inherited through.1⟩ :: pruned)
    | none =>
      let (kept, pruned) := prune (before ++ [c]) rest
      (c.1 :: kept, pruned)

theorem candidates_sublist (seen rs : List TypeRef) : (candidates seen rs).1.Sublist rs := by
  induction rs generalizing seen with
  | nil => exact .slnil
  | cons r rest ih =>
    unfold candidates
    split
    · exact (ih seen).cons r
    · exact (ih (r :: seen)).cons_cons r

theorem prune_kept_sublist (before cs : List (TypeRef × Ancestors)) :
    (prune before cs).1.Sublist (cs.map (·.1)) := by
  induction cs generalizing before with
  | nil => exact .slnil
  | cons c rest ih =>
    unfold prune
    split
    · exact (ih before).cons c.1
    · exact (ih (before ++ [c])).cons_cons c.1

end Reduction

/-- The reduced interface list of a type. It fails where a listed reference, or one reached from it, has the
wrong number of arguments. -/
def Hierarchy.reduce (h : Hierarchy) (t : TypeSymbol) : Except HierarchyError Reduction := do
  t.interfaces.forM h.checkArity
  let (candidates, duplicates) := Reduction.candidates [] t.interfaces
  let reached ← candidates.mapM h.ancestors
  let (kept, inherited) := Reduction.prune [] (candidates.zip reached)
  return {
    kept := kept
    pruned := duplicates ++ inherited
    unresolved := candidates.filter fun r => (h.graph.resolve? r).isNone }

end Exonym
