import Exonym.Proofs.Graph.Traverse
import Exonym.Proofs.Overload.Ranking
import Exonym.Proofs.TypeRef.Readable
import Exonym.Sample.Gallery

/-!
# What is omitted is still there

A method or a property that overload resolution omits gives way to one of the same erasure that stays and in whose
signature the same is written at every position. Where the signatures are legible, definitions of the same full names
are mentioned in both. They are the same definitions unless two modules define types of one full name, which texts do
not tell apart.

Main statements:

* `TypeSymbol.OwnsMembers.omitsRestated`: what is omitted from a type is restated by what stays.
* `SymbolGraph.omitted_restated_of_build`: whole graphs.
* `SymbolGraph.not_restated_of_painter`: two methods that are told apart by nothing but a module.
-/

namespace Exonym

/-- A method or a property as far as it can be told from others. -/
structure Callable where
  info : MemberInfo
  erasure : Erasure
  /-- What is returned, and the types of the parameters without by-reference wrappers. -/
  signature : List TypeRef

namespace Callable

def ofMethod (m : Method) : Callable :=
  ⟨m.info, (Candidate.ofMethod m).1, m.returnType :: m.parameters.map (·.type.eraseByRef)⟩

def ofProperty (p : Property) : Callable :=
  ⟨p.info, (Candidate.ofProperty p).1, p.type :: p.indexParameters.map (·.type.eraseByRef)⟩

def isLegible (c : Callable) : Bool :=
  c.signature.all TypeRef.isLegible

/-- The callables have one erasure and mention the same definitions, position by position. -/
def MentionsSame (k c : Callable) : Prop :=
  k.erasure = c.erasure ∧ k.signature.map TypeRef.mentions = c.signature.map TypeRef.mentions

instance (k c : Callable) : Decidable (k.MentionsSame c) :=
  inferInstanceAs (Decidable (_ ∧ _))

/-- The first one says what the second one says, as far as it can be read. -/
structure Restates (k c : Callable) : Prop where
  erasure : k.erasure = c.erasure
  texts : k.signature.map TypeRef.text = c.signature.map TypeRef.text
  /-- Position by position, definitions of the same full names are mentioned. -/
  names : k.isLegible = true → c.isLegible = true →
    k.signature.map TypeRef.fullNames = c.signature.map TypeRef.fullNames
  /-- They are the same definitions if the modules are the same, too, which the texts do not tell. -/
  mentions : k.isLegible = true → c.isLegible = true →
    (k.MentionsSame c ↔ k.signature.map TypeRef.modules = c.signature.map TypeRef.modules)

theorem Restates.of_texts {k c : Callable} (herasure : k.erasure = c.erasure)
    (htexts : k.signature.map TypeRef.text = c.signature.map TypeRef.text) : k.Restates c where
  erasure := herasure
  texts := htexts
  names hk hc := by
    rw [isLegible, List.all_eq_true] at hk hc
    exact map_eq_map_of_mem htexts fun r hr s hs heq => (TypeRef.fullNames_of_text (hk r hr) (hc s hs) heq).2
  mentions hk hc := by
    rw [isLegible, List.all_eq_true] at hk hc
    constructor
    · rintro ⟨-, hmentions⟩
      exact map_eq_map_of_mem hmentions fun r _ s _ heq => by rw [TypeRef.modules, heq, TypeRef.modules]
    · intro hmodules
      refine ⟨herasure, map_eq_map_of_mem₂ htexts hmodules fun r hr s hs heq hmodules => ?_⟩
      exact (TypeRef.mentions_eq_iff_of_text (hk r hr) (hc s hs) heq).2 hmodules

end Callable

namespace TypeSymbol

open Candidate

variable {t : TypeSymbol} {e : Erasure} {a : Candidate} {c : Callable}

def callables (t : TypeSymbol) : List Callable :=
  t.members.methods.map .ofMethod ++ t.members.properties.map .ofProperty

theorem mem_callables : c ∈ t.callables ↔
    (∃ m ∈ t.members.methods, .ofMethod m = c) ∨ ∃ p ∈ t.members.properties, .ofProperty p = c := by
  simp only [callables, List.mem_append, List.mem_map]

theorem exists_mem_infos (hc : c ∈ t.callables) : ∃ x ∈ t.members.infos, x.2 = c.info := by
  rcases mem_callables.1 hc with ⟨m, hm, rfl⟩ | ⟨p, hp, rfl⟩
  · exact ⟨(.method, m.info), by simpa [Members.infos] using ⟨m, hm, rfl⟩, rfl⟩
  · exact ⟨(.property, p.info), by simpa [Members.infos] using ⟨p, hp, rfl⟩, rfl⟩

/-- The texts of a rival are those of its signature. -/
theorem exists_callable (ha : a ∈ t.rivals e) : ∃ c ∈ t.callables, c.info.onPrimarySurface = true ∧
    c.info.id = a.id ∧ c.erasure = e ∧ c.signature.map TypeRef.text = a.returnType :: a.parameters := by
  rcases mem_rivals_iff.1 ha with ⟨m, hm, hsurface, hcandidate⟩ | ⟨p, hp, hsurface, hcandidate⟩
  · obtain ⟨rfl, rfl⟩ := Prod.mk.inj hcandidate
    exact ⟨.ofMethod m, mem_callables.2 (.inl ⟨m, hm, rfl⟩), hsurface, rfl, rfl,
      by simp [Callable.ofMethod, of, Function.comp_def]⟩
  · obtain ⟨rfl, rfl⟩ := Prod.mk.inj hcandidate
    exact ⟨.ofProperty p, mem_callables.2 (.inr ⟨p, hp, rfl⟩), hsurface, rfl, rfl,
      by simp [Callable.ofProperty, of, Function.comp_def]⟩

theorem exists_rival (hc : c ∈ t.callables) (hsurface : c.info.onPrimarySurface = true) :
    ∃ a ∈ t.rivals c.erasure, a.id = c.info.id ∧ c.signature.map TypeRef.text = a.returnType :: a.parameters := by
  rcases mem_callables.1 hc with ⟨m, hm, rfl⟩ | ⟨p, hp, rfl⟩
  · exact ⟨(Candidate.ofMethod m).2, mem_rivals_iff.2 (.inl ⟨m, hm, hsurface, rfl⟩), rfl,
      by simp [Callable.ofMethod, Candidate.ofMethod, of, Function.comp_def]⟩
  · exact ⟨(Candidate.ofProperty p).2, mem_rivals_iff.2 (.inr ⟨p, hp, hsurface, rfl⟩), rfl,
      by simp [Callable.ofProperty, Candidate.ofProperty, of, Function.comp_def]⟩

theorem callables_applyTo (plan : OverloadPlan) (t : TypeSymbol) :
    (plan.applyTo t).callables = t.callables.map fun c => { c with info := plan.moveInfo c.info } := by
  simp only [callables, OverloadPlan.applyTo, Members.mapInfo, List.map_append, List.map_map]
  rfl

theorem OwnsMembers.info_eq (h : t.OwnsMembers) {d : Callable} (hc : c ∈ t.callables) (hd : d ∈ t.callables)
    (hid : c.info.id.same d.info.id = true) : c.info = d.info := by
  obtain ⟨x, hx, hxc⟩ := exists_mem_infos hc
  obtain ⟨y, hy, hyd⟩ := exists_mem_infos hd
  have hxy : x = y := h.eq_of_same hx hy (by rw [hxc, hyd, hid])
  rw [← hxc, ← hyd, hxy]

/-- A callable that is to move is on a surface. -/
theorem OwnsMembers.onPrimarySurface_of_placement? (h : t.OwnsMembers) (hc : c ∈ t.callables) {q : Placement}
    (hq : (OverloadPlan.ofConflicts t.conflicts).placement? c.info.id = some q) : c.info.onPrimarySurface = true := by
  obtain ⟨x, hx, hxc⟩ := exists_mem_infos hc
  rw [← hxc] at hq ⊢
  exact (h.candidate_of_placement? hx hq).2.1

/-- A rival that is to be omitted gives way to one that stays and has the same texts. -/
theorem OwnsMembers.exists_stays_of_omitted (h : t.OwnsMembers) (ha : a ∈ t.rivals e)
    (hq : (OverloadPlan.ofConflicts t.conflicts).placement? a.id = some .omitted) :
    ∃ b ∈ ((OverloadPlan.ofConflicts t.conflicts).applyTo t).rivals e,
      b.returnType = a.returnType ∧ b.parameters = a.parameters := by
  have hsame : ¬ReturnsDiffer (t.rivals e) := by
    intro hdiffer
    rw [h.placement?_of_rival ha, conflictKind, if_pos hdiffer] at hq
    split at hq <;> cases hq
  obtain ⟨b, hb, hba⟩ := h.exists_stays ha
  refine ⟨b, hb, ?_, ?_⟩
  · by_contra hne
    exact hsame ⟨b, (h.mem_rivals_applyOverloads.1 hb).1, a, ha, hne⟩
  · rcases hba with rfl | hba
    · rfl
    · exact ((outranks_of_not_differ hsame).1 hba).1

/-- The type has a callable of the identity, and does not omit it. -/
def Offers (t : TypeSymbol) (id : MemberId) : Prop :=
  ∃ c ∈ t.callables, c.info.id.same id = true ∧ c.info.placement ≠ .omitted

instance {id : MemberId} : Decidable (t.Offers id) :=
  inferInstanceAs (Decidable (∃ c ∈ t.callables, _))

/-- Callables that the first type offers and the second one omits are restated by others that the second one keeps. -/
def OmitsRestated (t t' : TypeSymbol) : Prop :=
  ∀ c ∈ t'.callables, t.Offers c.info.id → c.info.placement = .omitted →
    ∃ k ∈ t'.callables, k.info.onPrimarySurface = true ∧ k.Restates c

theorem OwnsMembers.omitsRestated (h : t.OwnsMembers) :
    t.OmitsRestated ((OverloadPlan.ofConflicts t.conflicts).applyTo t) := by
  rintro c' hc' ⟨c, hc, hid, hbefore⟩ homitted
  rw [callables_applyTo] at hc'
  obtain ⟨d, hd, rfl⟩ := List.mem_map.1 hc'
  have hinfo : c.info = d.info := h.info_eq hc hd hid
  have hq : (OverloadPlan.ofConflicts t.conflicts).placement? d.info.id = some .omitted := by
    cases hq : (OverloadPlan.ofConflicts t.conflicts).placement? d.info.id with
    | none =>
      have hplacement : d.info.placement = .omitted := by simpa [OverloadPlan.moveInfo, hq] using homitted
      exact absurd (hinfo ▸ hplacement) hbefore
    | some q => simpa [OverloadPlan.moveInfo, hq] using homitted
  obtain ⟨a, ha, haid, htexts⟩ := exists_rival hd (h.onPrimarySurface_of_placement? hd hq)
  obtain ⟨b, hb, hreturns, hparameters⟩ := h.exists_stays_of_omitted ha (haid ▸ hq)
  obtain ⟨k, hk, hsurface, -, herasure, hktexts⟩ := exists_callable hb
  refine ⟨k, hk, hsurface, .of_texts herasure ?_⟩
  rw [hktexts, hreturns, hparameters]
  exact htexts.symm

end TypeSymbol

namespace SymbolGraph

/-- Whatever method or property of a built graph overload resolution omits, one of the same erasure stays on the type in
whose signature the same texts stand. Where the signatures are legible they mention definitions of the same full names,
and the same definitions if these can be told by their full names. -/
theorem omitted_restated_of_build {types : List TypeSymbol} {aliases : List Alias} {g : SymbolGraph}
    (h : build types aliases = .ok g) : List.Forall₂ TypeSymbol.OmitsRestated g.types g.resolveOverloads.1.types := by
  change List.Forall₂ _ g.types (g.types.map _)
  rw [List.forall₂_map_right_iff, List.forall₂_same]
  exact fun t ht => ((consistent_of_build h).members t ht).omitsRestated

/-- A number, and a reference to one. -/
theorem omitted_restated_of_reader :
    ∃ g, build Gallery.reader [] = .ok g ∧
      (∃ t ∈ g.resolveOverloads.1.types, (∃ c ∈ t.callables, c.info.placement = .omitted) ∧
        ∀ c ∈ t.callables, c.isLegible = true ∧ ∀ k ∈ t.callables,
          k.signature.map TypeRef.modules = c.signature.map TypeRef.modules) ∧
      List.Forall₂ TypeSymbol.OmitsRestated g.types g.resolveOverloads.1.types := by
  have hrun : (build Gallery.reader []).toOption.any (fun g => decide (
      ∃ t ∈ g.resolveOverloads.1.types, (∃ c ∈ t.callables, c.info.placement = .omitted) ∧
        ∀ c ∈ t.callables, c.isLegible = true ∧ ∀ k ∈ t.callables,
          k.signature.map TypeRef.modules = c.signature.map TypeRef.modules)) = true := by
    simp only [build, sortTypes, settle_eq, sortAliases, resolveOverloads, TypeSymbol.conflicts, TypeSymbol.buckets,
      TypeSymbol.candidates, Conflict.inBucket, Conflict.among, mergeSort_eq_sortTo]
    decide +kernel
  obtain ⟨g, hbuild, hrun⟩ := exists_of_any hrun
  exact ⟨g, hbuild, of_decide_eq_true hrun, omitted_restated_of_build hbuild⟩

/-- Two methods that take widgets of different modules, one of them by reference. -/
def painter : List TypeSymbol := [
  (Gallery.draft "App.Painter" .classType
    |>.method "Paint" [⟨"widget", .plain "a" "Lib" "Widget", .byValue, false⟩] (Gallery.system "Void") id
    |>.method "Paint" [⟨"widget", .byRef (.plain "b" "Lib" "Widget"), .ref, false⟩] (Gallery.system "Void") id).type]

/-- One of the methods is omitted, and none is left that mentions the same definitions. -/
theorem not_restated_of_painter :
    ∃ g, build painter [] = .ok g ∧ ∃ t ∈ g.types, ∃ t' ∈ g.resolveOverloads.1.types, t'.id = t.id ∧
      ∃ c ∈ t'.callables, t.Offers c.info.id ∧ c.info.placement = .omitted ∧
        ∀ k ∈ t'.callables, k.info.placement ≠ .omitted → ¬k.MentionsSame c := by
  have hrun : (build painter []).toOption.any (fun g => decide (∃ t ∈ g.types, ∃ t' ∈ g.resolveOverloads.1.types,
      t'.id = t.id ∧ ∃ c ∈ t'.callables, t.Offers c.info.id ∧ c.info.placement = .omitted ∧
        ∀ k ∈ t'.callables, k.info.placement ≠ .omitted → ¬k.MentionsSame c)) = true := by
    simp only [build, sortTypes, settle_eq, sortAliases, resolveOverloads, TypeSymbol.conflicts, TypeSymbol.buckets,
      TypeSymbol.candidates, Conflict.inBucket, Conflict.among, mergeSort_eq_sortTo]
    decide +kernel
  obtain ⟨g, hbuild, hrun⟩ := exists_of_any hrun
  exact ⟨g, hbuild, of_decide_eq_true hrun⟩

end SymbolGraph

end Exonym
