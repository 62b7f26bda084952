import Exonym.Proofs.Grouping
import Exonym.Proofs.Naming.Stamped
import Exonym.Proofs.Order.Views

/-!
# Naming does not see how members are listed

The plan of names goes through types, surfaces, views and namespaces in orders of their own. So two graphs that are
alike, with views that refer to their interfaces in the same way, have one plan, and a ledger that names one of them
names the other. What is stamped on them is alike again.

Main statements:

* `SymbolGraph.Alike.plan_eq`: the plans of graphs that are alike.
* `SymbolGraph.Alike.exists_stampNames`: names that can be stamped on a graph can be stamped on one that is alike.
* `SymbolGraph.Alike.violations_eq_nil`: the gate lets both pass.
-/

namespace Exonym

/-! ## Plans -/

namespace NamingStep

variable {t t' : TypeSymbol} {v w : View}

instance : Std.TransCmp MemberInfo.order :=
  inferInstanceAs (Std.TransCmp (compareLex (compareOn MemberInfo.declarationOrder) (compareOn MemberInfo.id)))

theorem same_of_order {a b : MemberInfo} (h : a.order b = .eq) : a.id.same b.id = true := by
  unfold MemberInfo.order compareLex at h
  rw [Ordering.then_eq_eq] at h
  exact MemberId.same_iff.2 (MemberId.compare_eq_iff.1 h.2)

theorem surfaceMembers_eq {R : View → View → Prop} (h : t.Alike R t') (ho : t.OwnsMembers) :
    surfaceMembers t' = surfaceMembers t := by
  refine (sort_eq_of_perm (c := MemberInfo.order) (k := Prod.snd) (h.members.infos.filter _) ?_).symm
  intro x hx y hy hxy
  exact ho.eq_of_same (List.mem_filter.1 hx).1 (List.mem_filter.1 hy).1 (same_of_order hxy)

theorem ofMembers_eq {R : View → View → Prop} (h : t.Alike R t') (ho : t.OwnsMembers) :
    ofMembers t' = ofMembers t := by
  have hstep : ∀ kind info, ofMember t' kind info = ofMember t kind info := fun kind info =>
    h.agree (ofMember · kind info) fun _ _ => by cases kind <;> rfl
  unfold ofMembers
  rw [surfaceMembers_eq h ho]
  simp only [hstep]

theorem ofView_eq {R : View → View → Prop} (h : t.Alike R t') (ho : t.OwnsMembers) (hv : v.Alike w) :
    ofView t' w = ofView t v := by
  have haccessor : ofAccessor t' w = ofAccessor t v := by
    unfold ofAccessor
    rw [hv.accessorId_eq, h.id_eq]
  have hmember : ∀ id kind info, ofViewMember t' w id kind info = ofViewMember t v id kind info := by
    intro id kind info
    unfold ofViewMember
    rw [h.id_eq, hv.interfaceId, hv.shortName_eq]
  unfold ofView
  rw [haccessor, hv.members]
  simp only [h.find?_eq ho, hmember]

theorem references_perm {R : View → View → Prop} (h : t.Alike R t') : (references t).Perm (references t') := by
  have hbase : t'.baseType = t.baseType := h.agree TypeSymbol.baseType fun _ _ => rfl
  have hinterfaces : t'.interfaces = t.interfaces := h.agree TypeSymbol.interfaces fun _ _ => rfl
  unfold references
  rw [hbase, hinterfaces]
  refine ((((List.Perm.append_left _ ?_).append ?_).append ?_).append ?_).append ?_
  · exact h.members.methods.flatMap_right _
  · exact h.members.properties.flatMap_right _
  · exact h.members.fields.map _
  · exact h.members.events.map _
  · exact h.members.constructors.flatMap_right _

end NamingStep

namespace SymbolGraph

variable {g g' : SymbolGraph}

theorem Alike.namespaces_eq {R : View → View → Prop} (h : g.Alike R g') : g'.namespaces = g.namespaces := by
  have hnames : g'.namespaceNames = g.namespaceNames := by
    unfold namespaceNames
    rw [map_eq_of_forall₂ h.types fun _ _ ht => ht.namespace_eq.symm]
  have hnamed : ∀ name, g'.namespaceNamed name = g.namespaceNamed name := by
    intro name
    have hids : ∀ graph : SymbolGraph, (graph.types.filter (·.namespace = name)).map (·.id) =
        (graph.types.map (·.id)).filter (·.namespace = name) := by
      intro graph
      rw [List.filter_map]
      rfl
    unfold namespaceNamed
    rw [hids, hids, h.ids_eq, h.aliases]
  unfold namespaces
  rw [hnames]
  exact List.map_congr_left fun name _ => hnamed name

theorem Alike.foreignTypes_eq {R : View → View → Prop} (h : g.Alike R g') (ns : Namespace) :
    NamingStep.foreignTypes g' ns = NamingStep.foreignTypes g ns := by
  have hfound : List.Forall₂ (TypeSymbol.Alike R) (ns.types.filterMap g.find?) (ns.types.filterMap g'.find?) := by
    refine List.rel_filterMap (R := Eq) ?_ (List.forall₂_refl ns.types)
    rintro id _ rfl
    rcases h.find? id with ⟨hnone, hnone'⟩ | ⟨t, t', ht, ht', halike⟩
    · rw [hnone, hnone']
      exact .none
    · rw [ht, ht']
      exact .some halike
  -- members may be mentioned in another order, but the result is sorted
  have hmentioned : ((ns.types.filterMap g.find?).flatMap fun t => (NamingStep.references t).flatMap TypeRef.mentions).Perm
      ((ns.types.filterMap g'.find?).flatMap fun t => (NamingStep.references t).flatMap TypeRef.mentions) := by
    generalize ns.types.filterMap g.find? = found, ns.types.filterMap g'.find? = found' at hfound
    induction hfound with
    | nil => exact .refl _
    | cons halike _ ih => exact ((NamingStep.references_perm halike).flatMap_right _).append ih
  unfold NamingStep.foreignTypes
  simp only [h.contains_eq]
  exact (sort_eq_of_perm (c := compare) (k := fun id => id) (Grouping.perm_eraseDups (hmentioned.filter _))
    fun a _ b _ hab => TypeId.compare_eq_iff.1 hab).symm

/-- Graphs that are alike need the same names, in the same order. -/
theorem Alike.plan_eq (h : g.Alike View.Alike g') (hg : g.Consistent) : NamingStep.plan g' = NamingStep.plan g := by
  have htypes : g'.types.flatMap NamingStep.ofType = g.types.flatMap NamingStep.ofType := by
    rw [List.flatMap_def, List.flatMap_def]
    rw [map_eq_of_forall₂ h.types fun _ _ ht => (ht.agree NamingStep.ofType fun _ _ => rfl).symm]
  have hmembers : g'.types.flatMap (fun t => NamingStep.ofMembers t ++ t.views.flatMap (NamingStep.ofView t)) =
      g.types.flatMap fun t => NamingStep.ofMembers t ++ t.views.flatMap (NamingStep.ofView t) := by
    have hsteps : List.Forall₂ (fun t t' => NamingStep.ofMembers t ++ t.views.flatMap (NamingStep.ofView t) =
        NamingStep.ofMembers t' ++ t'.views.flatMap (NamingStep.ofView t')) g.types g'.types := by
      refine forall₂_imp_of_mem h.types ?_
      intro t ht t' _ halike
      have ho := hg.members t ht
      rw [NamingStep.ofMembers_eq halike ho, List.flatMap_def, List.flatMap_def,
        map_eq_of_forall₂ halike.views fun _ _ hv => (NamingStep.ofView_eq halike ho hv).symm]
    rw [List.flatMap_def, List.flatMap_def, map_eq_of_forall₂ hsteps fun _ _ heq => heq]
  have himports : NamingStep.ofImports g' = NamingStep.ofImports g := by
    funext ns
    unfold NamingStep.ofImports
    rw [h.foreignTypes_eq ns]
  unfold NamingStep.plan
  rw [htypes, hmembers, h.namespaces_eq, himports]

theorem Alike.reserveNames_eq (h : g.Alike View.Alike g') (hg : g.Consistent) (l : Ledger) :
    g'.reserveNames l = g.reserveNames l := by
  unfold SymbolGraph.reserveNames
  rw [h.plan_eq hg]

end SymbolGraph

/-! ## Stamps -/

/-- Names are written on members in whatever order they stand. -/
theorem Members.Reordered.exists_traverseInfo {ε : Type} {f : MemberInfo → Except ε MemberInfo} {m m' a : Members}
    (h : m.Reordered m') (ha : m.traverseInfo f = .ok a) : ∃ a', m'.traverseInfo f = .ok a' ∧ a.Reordered a' := by
  have ht := traversed_of_traverseInfo ha
  obtain ⟨methods', hmethods', hm⟩ := exists_mapM_of_perm h.methods ht.methods
  obtain ⟨properties', hproperties', hp⟩ := exists_mapM_of_perm h.properties ht.properties
  obtain ⟨fields', hfields', hf⟩ := exists_mapM_of_perm h.fields ht.fields
  obtain ⟨events', hevents', he⟩ := exists_mapM_of_perm h.events ht.events
  obtain ⟨constructors', hconstructors', hc⟩ := exists_mapM_of_perm h.constructors ht.constructors
  refine ⟨⟨methods', properties', fields', events', constructors'⟩, ?_, ⟨hm, hp, hf, he, hc⟩⟩
  unfold traverseInfo
  rw [hmethods', hproperties', hfields', hevents', hconstructors']
  rfl

namespace Stamp

variable {l : Ledger} {t t' after : TypeSymbol} {v w : View}

theorem memberScope?_eq (h : t.Alike View.Alike t') : memberScope? t' = memberScope? t := by
  funext info
  unfold memberScope? lastViewOf?
  rcases find?_of_forall₂ (List.rel_reverse h.views) (p := (·.holds info.id)) (q := (·.holds info.id))
    fun _ _ hv => by rw [hv.holds_eq] with ⟨hnone, hnone'⟩ | ⟨v, w, hv, hw, halike⟩
  · rw [hnone, hnone', h.id_eq]
  · rw [hv, hw, h.id_eq, Option.map_some, Option.map_some, halike.interfaceId]

theorem exists_stampView (h : t.Alike View.Alike t') (hv : v.Alike w) {v' : View} (hstamp : stampView l t v = .ok v') :
    ∃ w', stampView l t' w = .ok w' ∧ v'.Alike w' := by
  obtain ⟨name, hname, rfl⟩ := stampView_eq_ok_iff.1 hstamp
  rw [← hv.accessorId_eq, ← h.id_eq] at hname
  exact ⟨_, stampView_eq_ok_iff.2 ⟨name, hname, rfl⟩, ⟨hv.interfaceId, hv.members, rfl, hv.accessorId⟩, hv.reference⟩

theorem exists_stampType (h : t.Alike View.Alike t') (hstamp : stampType l t = .ok after) :
    ∃ after', stampType l t' = .ok after' ∧ after.Alike View.Alike after' := by
  obtain ⟨name, members, views, hname, hmembers, hviews, rfl⟩ := stampType_eq_ok_iff.1 hstamp
  have hinfo : stampInfo l t' = stampInfo l t := by
    funext info
    unfold stampInfo
    rw [memberScope?_eq h]
  obtain ⟨members', hmembers', hreordered⟩ := h.members.exists_traverseInfo hmembers
  obtain ⟨views', hviews', hall⟩ := exists_mapM_of_forall₂ h.views (fun _ _ _ hv hs => exists_stampView h hv hs) hviews
  refine ⟨_, stampType_eq_ok_iff.2 ⟨name, members', views', ?_, ?_, hviews', rfl⟩, hreordered, hall, ?_⟩
  · rwa [h.id_eq, h.namespace_eq]
  · rwa [hinfo]
  · rw [h.rest]

end Stamp

namespace SymbolGraph

variable {g g' : SymbolGraph} {l : Ledger}

/-- Names that can be stamped on a graph can be stamped on one that is alike, and both stay so. -/
theorem Alike.exists_stampNames {stamped : SymbolGraph} (h : g.Alike View.Alike g') (hstamp : g.stampNames l = .ok stamped) :
    ∃ stamped', g'.stampNames l = .ok stamped' ∧ stamped.Alike View.Alike stamped' := by
  obtain ⟨types, htypes, rfl⟩ := Stamp.stampNames_eq_ok_iff.1 hstamp
  obtain ⟨types', htypes', hall⟩ :=
    exists_mapM_of_forall₂ h.types (fun _ _ _ ht hs => Stamp.exists_stampType ht hs) htypes
  exact ⟨_, Stamp.stampNames_eq_ok_iff.2 ⟨types', htypes', rfl⟩, hall, h.aliases⟩

end SymbolGraph

/-! ## The gate -/

namespace Gate

variable {l : Ledger} {t t' : TypeSymbol} {v w : View}

theorem stampOfMember?_eq (h : t.Alike View.Alike t') : stampOfMember? l t' = stampOfMember? l t := by
  funext info
  unfold stampOfMember? TypeSymbol.viewOf?
  rcases find?_of_forall₂ h.views (p := (·.holds info.id)) (q := (·.holds info.id))
    fun _ _ hv => by rw [hv.holds_eq] with ⟨hnone, hnone'⟩ | ⟨v, w, hv, hw, halike⟩
  · rw [hnone, hnone', h.id_eq]
  · rw [hv, hw, h.id_eq, Option.bind_some, Option.bind_some, halike.interfaceId]

/-- A type has all its stamps in any order of its members. -/
theorem stamps_eq_nil_of_alike {g g' : SymbolGraph} (h : g.Alike View.Alike g') (hnone : stamps g l = []) :
    stamps g' l = [] := by
  unfold stamps at hnone ⊢
  simp only [List.flatMap_eq_nil_iff, List.append_eq_nil_iff, Option.toList_eq_nil_iff,
    List.filterMap_eq_nil_iff] at hnone ⊢
  intro t' ht'
  obtain ⟨t, ht, halike⟩ := exists_of_mem_right h.types ht'
  obtain ⟨htype, hmembers⟩ := hnone t ht
  refine ⟨?_, ?_⟩
  · rwa [halike.id_eq, halike.namespace_eq, halike.agree TypeSymbol.finalName fun _ _ => rfl]
  · intro x hx
    rw [stampOfMember?_eq halike]
    exact hmembers x (halike.members.mem_infos.1 hx)

theorem viewFaults_eq_nil_of_alike (h : t.Alike View.Alike t') (ho : t.OwnsMembers) (hv : v.Alike w)
    (hnone : viewFaults t v = []) : viewFaults t' w = [] := by
  unfold viewFaults at hnone ⊢
  rw [List.append_eq_nil_iff, List.filterMap_eq_nil_iff] at hnone ⊢
  rw [hv.accessorName, hv.accessorId_eq, hv.members]
  refine ⟨hnone.1, ?_⟩
  intro id hid
  have hmember := hnone.2 id hid
  unfold viewMember? at hmember ⊢
  rw [h.find?_eq ho]
  cases hfind : t.members.find? id with
  | none => simp [hfind] at hmember
  | some x =>
    simp only [hfind] at hmember ⊢
    split at hmember
    · rename_i hplacement
      rw [if_pos hplacement]
    · simp at hmember

theorem views_eq_nil_of_alike {g g' : SymbolGraph} (h : g.Alike View.Alike g') (hg : g.Consistent) (hnone : views g l = []) :
    views g' l = [] := by
  unfold views at hnone ⊢
  simp only [List.flatMap_eq_nil_iff, List.append_eq_nil_iff, List.filterMap_eq_nil_iff] at hnone ⊢
  intro t' ht'
  obtain ⟨t, ht, halike⟩ := exists_of_mem_right h.types ht'
  obtain ⟨hviews, hmembers⟩ := hnone t ht
  refine ⟨?_, ?_⟩
  · intro w hw
    obtain ⟨v, hv, hvw⟩ := exists_of_mem_right halike.views hw
    exact viewFaults_eq_nil_of_alike halike (hg.members t ht) hvw (hviews v hv)
  · intro x hx
    have hmember := hmembers x (halike.members.mem_infos.1 hx)
    unfold surfaced? at hmember ⊢
    rwa [halike.id_eq]

end Gate

/-- The gate that lets a graph pass lets one that is alike pass. -/
theorem SymbolGraph.Alike.violations_eq_nil {g g' : SymbolGraph} {l : Ledger} (h : g.Alike View.Alike g')
    (hg : g.Consistent) (hnone : g.violations l = []) : g'.violations l = [] := by
  unfold violations at hnone ⊢
  simp only [List.append_eq_nil_iff] at hnone ⊢
  obtain ⟨⟨⟨hstamps, huniqueness⟩, hwords⟩, hviews⟩ := hnone
  exact ⟨⟨⟨Gate.stamps_eq_nil_of_alike h hstamps, huniqueness⟩, hwords⟩, Gate.views_eq_nil_of_alike h hg hviews⟩

end Exonym
