import Exonym.Proofs.Graph.Traverse
import Exonym.Proofs.Overload.Ranking
import Exonym.Proofs.Pipeline.Stages
import Exonym.Sample.Gallery

/-!
# What explicit implementations take from a surface

A member that implements an interface explicitly leaves the surface for a view, so a rival that gave way to it did so
for nothing. Where rivals return different types, explicit implementations come last; where they all return the same,
the widest one comes first, whether it is an explicit implementation or not.

Main statements:

* `TypeSymbol.OwnsMembers.plain_applyTo_planViews`: view planning leaves all other members where they are.
* `TypeSymbol.OwnsMembers.plain_applyOverloads_iff`: when overload resolution leaves one of them.
* `SymbolGraph.keepsPlain_iff`: both, for whole graphs.
* `SymbolGraph.losesPlain_of_counted`: a surface that loses a member to an explicit implementation.
-/

namespace Exonym

open Candidate

namespace Candidate

variable {a b : Candidate}

/-- Before a member that is no explicit implementation only such members come. -/
theorem isExplicit_of_plainest (h : plainest b a = .lt) (ha : a.isExplicit = false) : b.isExplicit = false := by
  by_contra hb
  rw [Bool.not_eq_false] at hb
  simp [plainest, compareLex, compareOn, ha, hb, Ordering.then] at h

end Candidate

namespace TypeSymbol

variable {t : TypeSymbol} {e : Erasure} {a : Candidate}

/-- Some rival is no explicit implementation. -/
def HasPlain (t : TypeSymbol) (e : Erasure) : Prop :=
  ∃ a ∈ t.rivals e, a.isExplicit = false

instance : Decidable (t.HasPlain e) :=
  inferInstanceAs (Decidable (∃ a ∈ t.rivals e, _))

/-- View planning takes nothing but explicit implementations off the surfaces. -/
theorem OwnsMembers.plain_applyTo_planViews (h : t.OwnsMembers) (ha : a.isExplicit = false) :
    a ∈ (t.planViews.applyTo t).rivals e ↔ a ∈ t.rivals e := by
  have hmoved : ∀ info, ∃ q : Placement, t.planViews.moveInfo info = { info with placement := q } := fun info =>
    ⟨_, ViewPlan.moveInfo_frame _ info⟩
  have hmethod : ∀ m : Method, ofMethod { m with info := t.planViews.moveInfo m.info } = ofMethod m := fun m =>
    ofMethod_moved (hmoved m.info)
  have hproperty : ∀ p : Property, ofProperty { p with info := t.planViews.moveInfo p.info } = ofProperty p := fun p =>
    ofProperty_moved (hmoved p.info)
  rw [mem_rivals_iff, mem_rivals_iff, members_applyTo_planViews]
  simp only [Members.mapInfo, List.mem_map, exists_exists_and_eq_and, hmethod, hproperty]
  refine or_congr (exists_congr fun m => ?_) (exists_congr fun p => ?_)
  · rw [and_congr_right_iff]
    intro hm
    have hinfo : (MemberKind.method, m.info) ∈ t.members.infos := by simpa [Members.infos] using ⟨m, hm, rfl⟩
    rw [h.onPrimarySurface_moveInfo hinfo]
    refine and_congr_left fun hcandidate => ?_
    have hplain : m.info.isExplicit = false := (congrArg (·.2.isExplicit) hcandidate).trans ha
    simp [hplain]
  · rw [and_congr_right_iff]
    intro hp
    have hinfo : (MemberKind.property, p.info) ∈ t.members.infos := by simpa [Members.infos] using ⟨p, hp, rfl⟩
    rw [h.onPrimarySurface_moveInfo hinfo]
    refine and_congr_left fun hcandidate => ?_
    have hplain : p.info.isExplicit = false := (congrArg (·.2.isExplicit) hcandidate).trans ha
    simp [hplain]

/-- The rivals return different types, or one that is no explicit implementation gives way to no explicit one. -/
def PlainHoldsOut (t : TypeSymbol) (e : Erasure) : Prop :=
  ReturnsDiffer (t.rivals e) ∨ ∃ a ∈ t.rivals e, a.isExplicit = false ∧
    ∀ b ∈ t.rivals e, b.isExplicit = true → b.parameters = a.parameters → widest b a ≠ .lt

instance : Decidable (t.PlainHoldsOut e) :=
  inferInstanceAs (Decidable (_ ∨ ∃ a ∈ t.rivals e, _))

/-- Overload resolution leaves a rival that is no explicit implementation if one of these holds out. -/
theorem OwnsMembers.plain_applyOverloads_iff (h : t.OwnsMembers) (hplain : t.HasPlain e) :
    ((OverloadPlan.ofConflicts t.conflicts).applyTo t).HasPlain e ↔ t.PlainHoldsOut e := by
  constructor
  · rintro ⟨a, ha, hexplicit⟩
    obtain ⟨ha, hfirst⟩ := h.mem_rivals_applyOverloads.1 ha
    by_cases hdiffer : ReturnsDiffer (t.rivals e)
    · exact .inl hdiffer
    · simp only [outranks_of_not_differ hdiffer, not_and] at hfirst
      exact .inr ⟨a, ha, hexplicit, fun b hb _ => hfirst b hb⟩
  · by_cases hdiffer : ReturnsDiffer (t.rivals e)
    · intro _
      obtain ⟨a, ha, hexplicit⟩ := hplain
      -- this one stays, or one that comes before it does, and that one is no explicit implementation either
      obtain ⟨b, hb, rfl | hba⟩ := h.exists_stays ha
      · exact ⟨b, hb, hexplicit⟩
      · exact ⟨b, hb, isExplicit_of_plainest ((outranks_of_differ hdiffer).1 hba) hexplicit⟩
    · rintro (hreturns | ⟨a, ha, hexplicit, hfirst⟩)
      · exact absurd hreturns hdiffer
      · obtain ⟨b, hb, rfl | hba⟩ := h.exists_stays ha
        · exact ⟨b, hb, hexplicit⟩
        · obtain ⟨hparameters, hlt⟩ := (outranks_of_not_differ hdiffer).1 hba
          refine ⟨b, hb, ?_⟩
          by_contra hb'
          exact hfirst b (h.mem_rivals_applyOverloads.1 hb).1 (by simpa using hb') hparameters hlt

end TypeSymbol

namespace SymbolGraph

variable {g : SymbolGraph}

/-- A surface that has a member that is no explicit implementation has one of the same erasure when overloads are resolved
and views are planned if and only if the rivals return different types, or one such member gives way to no explicit
implementation. -/
theorem keepsPlain_iff {types : List TypeSymbol} {aliases : List Alias} (hbuild : build types aliases = .ok g)
    {t : TypeSymbol} (ht : t ∈ g.types) {e : Erasure} (hplain : t.HasPlain e) :
    ∃ t', g.resolveOverloads.1.planViews.1.find? t.id = some t' ∧ (t'.HasPlain e ↔ t.PlainHoldsOut e) := by
  have hg := consistent_of_build hbuild
  have hresolved : g.resolveOverloads.1.Consistent := Analyzed.refl.overloads.consistent hg
  have ht' : (OverloadPlan.ofConflicts t.conflicts).applyTo t ∈ g.resolveOverloads.1.types :=
    List.mem_map.2 ⟨t, ht, rfl⟩
  have hfind := hresolved.planViews.find?_eq (List.mem_map_of_mem (f := fun t => t.planViews.applyTo t) ht')
  rw [ViewPlan.applyTo_id, OverloadPlan.applyTo_id] at hfind
  refine ⟨_, hfind, ?_⟩
  rw [← (hg.members t ht).plain_applyOverloads_iff hplain]
  exact exists_congr fun a => and_congr_left fun ha => (hresolved.members _ ht').plain_applyTo_planViews ha

/-- Two properties that differ in their types, of which one is an explicit implementation. -/
theorem keepsPlain_of_boxed :
    ∃ g, build Gallery.boxed [] = .ok g ∧ ∃ t ∈ g.types, t.HasPlain ⟨.property, "Value", 0, 0, false⟩ ∧
      t.PlainHoldsOut ⟨.property, "Value", 0, 0, false⟩ ∧
      ∃ t', g.resolveOverloads.1.planViews.1.find? t.id = some t' ∧
        (t'.HasPlain ⟨.property, "Value", 0, 0, false⟩ ↔ t.PlainHoldsOut ⟨.property, "Value", 0, 0, false⟩) := by
  have hrun : (build Gallery.boxed []).toOption.any (fun g => decide (∃ t ∈ g.types,
      t.HasPlain ⟨.property, "Value", 0, 0, false⟩ ∧ t.PlainHoldsOut ⟨.property, "Value", 0, 0, false⟩)) = true := by
    simp only [build, sortTypes, settle_eq, sortAliases, mergeSort_eq_sortTo]
    decide +kernel
  obtain ⟨g, hbuild, hrun⟩ := exists_of_any hrun
  obtain ⟨t, ht, hplain, hout⟩ := of_decide_eq_true hrun
  exact ⟨g, hbuild, t, ht, hplain, hout, keepsPlain_iff hbuild ht hplain⟩

/-- A property, and one of the same name and type that stands before it and that an interface wants to have. -/
def counted : List TypeSymbol := [
  (Gallery.draft "App.Bag" .classType
    |>.property "Count" (Gallery.system "Int32") (fun info =>
      { info with
        id := .of "app" "App.Bag" "System.ICounted.Count" ":System.Int32"
        explicitInterface := some (Gallery.system "ICounted") })
    |>.property "Count" (Gallery.system "Int32") id).type]

/-- The property gives way to the explicit implementation, which then leaves the surface, too. -/
theorem losesPlain_of_counted :
    ∃ g, build counted [] = .ok g ∧ ∃ t ∈ g.types, t.HasPlain ⟨.property, "Count", 0, 0, false⟩ ∧
      ∃ t', g.resolveOverloads.1.planViews.1.find? t.id = some t' ∧
        ¬t'.HasPlain ⟨.property, "Count", 0, 0, false⟩ := by
  have hrun : (build counted []).toOption.any (fun g => decide (∃ t ∈ g.types,
      t.HasPlain ⟨.property, "Count", 0, 0, false⟩ ∧
        (g.resolveOverloads.1.planViews.1.find? t.id).any fun t' =>
          decide (¬t'.HasPlain ⟨.property, "Count", 0, 0, false⟩))) = true := by
    simp only [build, sortTypes, settle_eq, sortAliases, resolveOverloads, TypeSymbol.conflicts, TypeSymbol.buckets,
      TypeSymbol.candidates, Conflict.inBucket, Conflict.among, planViews, TypeSymbol.planViews, sortMembers,
      mergeSort_eq_sortTo]
    decide +kernel
  obtain ⟨g, hbuild, hrun⟩ := exists_of_any hrun
  obtain ⟨t, ht, hplain, hlost⟩ := of_decide_eq_true hrun
  obtain ⟨t', hfind, hlost⟩ := (Option.any_eq_true _ _).1 hlost
  exact ⟨g, hbuild, t, ht, hplain, t', hfind, of_decide_eq_true hlost⟩

end SymbolGraph

end Exonym
