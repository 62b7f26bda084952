import Exonym.Proofs.Order.Names
import Exonym.Proofs.Order.Overloads
import Exonym.Proofs.Pipeline.Stages
import Exonym.Sample.Gallery

/-!
# Members may be listed in any order

Overload resolution and the reservation of names put members in orders of their own before they look at them. So they
find and say the same whatever the order in which the members of a type are listed.

Main statements:

* `SymbolGraph.alike_reverseMembers`: reversing the lists of members is one way to list them anew.
* `SymbolGraph.Alike.member?_eq`: a member is found by its identity in any order, with all that is known about it.
* `SymbolGraph.listing_irrelevant_of_build`: overload resolution and the reservation of names.
-/

namespace Exonym

/-- The members of every kind, the other way round. -/
def Members.reverse (m : Members) : Members where
  methods := m.methods.reverse
  properties := m.properties.reverse
  fields := m.fields.reverse
  events := m.events.reverse
  constructors := m.constructors.reverse

theorem Members.reordered_reverse (m : Members) : m.Reordered m.reverse := by
  refine ⟨?_, ?_, ?_, ?_, ?_⟩ <;> exact (List.reverse_perm _).symm

namespace SymbolGraph

variable {g g' : SymbolGraph}

def reverseMembers (g : SymbolGraph) : SymbolGraph :=
  g.mapTypes fun t => { t with members := t.members.reverse }

theorem alike_reverseMembers (g : SymbolGraph) : g.Alike Eq g.reverseMembers := by
  refine ⟨?_, rfl⟩
  change List.Forall₂ _ g.types (g.types.map _)
  rw [List.forall₂_map_right_iff, List.forall₂_same]
  exact fun t _ => ⟨t.members.reordered_reverse, List.forall₂_refl t.views, rfl⟩

/-- The member of an identity, with what kind of member it is. -/
def member? (g : SymbolGraph) (id : MemberId) : Option (MemberKind × MemberInfo) :=
  (g.find? id.declaringTypeId).bind fun t => t.members.find? id

theorem Alike.member?_eq {R : View → View → Prop} (h : g.Alike R g') (hg : g.Consistent) (id : MemberId) :
    g'.member? id = g.member? id := by
  unfold member?
  rcases h.find? id.declaringTypeId with ⟨hnone, hnone'⟩ | ⟨t, t', ht, ht', halike⟩
  · rw [hnone, hnone']
  · rw [ht, ht', Option.bind_some, Option.bind_some, halike.find?_eq (hg.members t (find?_eq_some ht).2)]

/-- Overload resolution finds the same conflicts in the same order, and leaves every member in the same place, whatever
the order in which the members of a built graph are listed. In a graph with planned views the reservation of names goes
through the same steps, makes the same decisions and says the same in the same order, until it ends in the same way. -/
theorem listing_irrelevant_of_build {types : List TypeSymbol} {aliases : List Alias}
    (hbuild : build types aliases = .ok g) :
    (∀ g', g.Alike Eq g' → g'.resolveOverloads.2 = g.resolveOverloads.2 ∧
      ∀ id, g'.resolveOverloads.1.member? id = g.resolveOverloads.1.member? id) ∧
    ∀ a, g.Analyzed a → ∀ planned, a.planViews.1.Alike Eq planned → ∀ settings : NameSettings,
      planned.reserveNames (.empty settings) = a.planViews.1.reserveNames (.empty settings) := by
  have hg := consistent_of_build hbuild
  constructor
  · intro g' halike
    obtain ⟨hresolved, hconflicts⟩ := halike.resolveOverloads hg
    exact ⟨hconflicts, hresolved.member?_eq (Analyzed.refl.overloads.consistent hg)⟩
  · intro a ha planned halike settings
    refine (halike.imp ?_).reserveNames_eq (ha.consistent hg).planViews _
    rintro v _ rfl
    exact ⟨v.corresponds_refl, rfl⟩

/-- Types with two methods each, and the same types with the later method first. -/
theorem listing_irrelevant_of_readerStore :
    ∃ g, build (Gallery.reader ++ Gallery.store) [] = .ok g ∧
      g.reverseMembers.types.map (·.memberIds) ≠ g.types.map (·.memberIds) ∧
      g.resolveOverloads.2.length = 1 ∧ g.reverseMembers.resolveOverloads.2 = g.resolveOverloads.2 ∧
      (∀ id, g.reverseMembers.resolveOverloads.1.member? id = g.resolveOverloads.1.member? id) ∧
      (g.planViews.1.reserveNames (.empty .default)).failure = none ∧
      g.planViews.1.reverseMembers.reserveNames (.empty .default) = g.planViews.1.reserveNames (.empty .default) := by
  have hrun : (build (Gallery.reader ++ Gallery.store) []).toOption.any (fun g => decide (
      g.reverseMembers.types.map (·.memberIds) ≠ g.types.map (·.memberIds) ∧ g.resolveOverloads.2.length = 1 ∧
        (g.planViews.1.reserveNames (.empty .default)).failure.isNone = true)) = true := by
    simp only [build, sortTypes, settle_eq, sortAliases, resolveOverloads, TypeSymbol.conflicts, TypeSymbol.buckets,
      TypeSymbol.candidates, Conflict.inBucket, Conflict.among, planViews, TypeSymbol.planViews, sortMembers,
      reserveNames, NamingStep.plan, NamingStep.ofMembers, NamingStep.surfaceMembers, mergeSort_eq_sortTo]
    decide +kernel
  obtain ⟨g, hbuild, hrun⟩ := exists_of_any hrun
  obtain ⟨hlisting, hconflict, hdone⟩ := of_decide_eq_true hrun
  obtain ⟨hoverloads, hnames⟩ := listing_irrelevant_of_build hbuild
  obtain ⟨hconflicts, hmembers⟩ := hoverloads _ g.alike_reverseMembers
  exact ⟨g, hbuild, hlisting, hconflict, hconflicts, hmembers, Option.isNone_iff_eq_none.1 hdone,
    hnames g .refl _ g.planViews.1.alike_reverseMembers .default⟩

end SymbolGraph

end Exonym
