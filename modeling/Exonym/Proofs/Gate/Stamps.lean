import Exonym.Proofs.Naming.Stamped
import Exonym.Sample.Gallery

/-!
# Stamps that the gate does not look at

A type is stamped as decided when it, its members and the accessors of its views have the names that the ledger gave them
in the scopes they are emitted in, and whatever is emitted nowhere has no name. The gate holds most stamps against the
ledger, but not all of them: an accessor only has to have some name, a member of no view may have one, and a member is
held against the first view that lists it and no other.

Main statements:

* `TypeSymbol.Stamped`: a type that is stamped as the ledger decided.
* `TypeSymbol.StampedUnseen`: what of this the gate does not look at.
* `Pipeline.stamped_of_name`: naming stamps the types of a graph so.
* `Gate.stamped_iff_stampedUnseen`: once the gate has passed, that is all that is left to be wrong.
-/

namespace Exonym

/-- The stamp is the name that the symbol got in the scope. -/
def Ledger.Gave (l : Ledger) (id : SymbolId) (s : Scope) (stamp : Option String) : Prop :=
  ∃ name, stamp = some name ∧ l.finalName id s = .ok name

instance (l : Ledger) (id : SymbolId) (s : Scope) (stamp : Option String) : Decidable (l.Gave id s stamp) :=
  decidable_of_iff (Gate.compare? l id s stamp = none) Gate.compare?_eq_none_iff

namespace TypeSymbol

/-- The type, what is emitted of it and the accessors of its views have the names that they got, and nothing else has
one. -/
structure Stamped (l : Ledger) (t : TypeSymbol) : Prop where
  type : l.Gave (.type t.id) (.internal t.namespace) t.finalName
  surface : ∀ x ∈ t.members.infos, x.2.onPrimarySurface = true →
    l.Gave (.member x.2.id) (.ofSurface t.id x.2.isStatic) x.2.finalName
  viewed : ∀ x ∈ t.members.infos, ∀ v ∈ t.views, v.holds x.2.id = true →
    l.Gave (.member x.2.id) (.ofView t.id v.interfaceId x.2.isStatic) x.2.finalName
  accessors : ∀ v ∈ t.views, l.Gave (.member v.accessorId) (.ofSurface t.id false) v.accessorName
  others : ∀ x ∈ t.members.infos, x.2.onPrimarySurface = false → t.viewOf? x.2.id = none → x.2.finalName = none

/-- What no rule of the gate looks at: which names accessors have, whether members of no view have names, and what views
other than the first one of a member say. -/
structure StampedUnseen (l : Ledger) (t : TypeSymbol) : Prop where
  accessors : ∀ v ∈ t.views, v.accessorName ≠ none →
    l.Gave (.member v.accessorId) (.ofSurface t.id false) v.accessorName
  orphans : ∀ x ∈ t.members.infos, x.2.placement = .viewOnly → t.viewOf? x.2.id = none → x.2.finalName = none
  laterViews : ∀ x ∈ t.members.infos, ∀ v ∈ t.views, v.holds x.2.id = true →
    x.2.placement = .viewOnly ∧ (t.viewOf? x.2.id).map (·.interfaceId) = some v.interfaceId ∨
      l.Gave (.member x.2.id) (.ofView t.id v.interfaceId x.2.isStatic) x.2.finalName

end TypeSymbol

/-! ## Names as they are written -/

namespace Stamp

variable {l : Ledger} {t after : TypeSymbol}

/-- Stamping a view writes down what its accessor is called, and nothing else. -/
theorem gave_of_stampView {v w : View} (h : stampView l t v = .ok w) :
    w = { v with accessorName := w.accessorName } ∧
      l.Gave (.member v.accessorId) (.ofSurface t.id false) w.accessorName := by
  obtain ⟨name, hname, rfl⟩ := stampView_eq_ok_iff.1 h
  exact ⟨rfl, name, rfl, hname⟩

/-- A member that is in no view after stamping was in none before. -/
theorem not_holds_of_viewOf? (h : stampType l t = .ok after) {id : MemberId} (hnone : after.viewOf? id = none) :
    ∀ v ∈ t.views, v.holds id = false := by
  intro v hv
  obtain ⟨name, members, views, -, -, hviews, rfl⟩ := stampType_eq_ok_iff.1 h
  obtain ⟨w, hw, hvw⟩ := exists_of_mem_left (mapM_eq_ok_iff.1 hviews) hv
  have hholds : w.holds id = v.holds id := by rw [(gave_of_stampView hvw).1, View.holds, View.holds]
  rw [← hholds]
  simpa using List.find?_eq_none.1 hnone w hw

/-- What is written onto a type whose views are planned is what the ledger decided. -/
theorem stamped_of_stampType (hv : t.ViewsPlanned) (ho : t.OwnsMembers) (h : stampType l t = .ok after) :
    after.Stamped l := by
  have hid := id_of_stampType h
  -- the type, its members on a surface, those in views, the views themselves, and the members that are nowhere
  refine ⟨?_, fun x hx hp => ?_, fun x hx v hvt hvx => ?_, fun v hvt => ?_, fun x hx hp hnone => ?_⟩
  · obtain ⟨name, members, views, hname, -, -, rfl⟩ := stampType_eq_ok_iff.1 h
    exact ⟨name, rfl, hname⟩
  · obtain ⟨y, hy, -, hyx⟩ := member_of_stampType h hx
    obtain ⟨hxid, hstatic, hplacement⟩ := fields_of_stampInfo hyx
    have hprimary : y.2.onPrimarySurface = true := by rwa [MemberInfo.onPrimarySurface, ← hplacement]
    obtain ⟨name, hname, hx⟩ := finalName_of_stampInfo hyx (memberScope?_of_onPrimarySurface hprimary)
    exact ⟨name, hx, by rw [hxid, hid, hstatic, hname]⟩
  · obtain ⟨y, hy, -, hyx⟩ := member_of_stampType h hx
    obtain ⟨hxid, hstatic, -⟩ := fields_of_stampInfo hyx
    obtain ⟨w, hw, hwv⟩ := view_of_stampType h hvt
    rw [(gave_of_stampView hwv).1] at hvx ⊢
    rw [hxid] at hvx
    obtain ⟨name, hname, hx⟩ := finalName_of_stampInfo hyx (memberScope?_of_holds hv ho hy hw hvx)
    exact ⟨name, hx, by rw [hxid, hid, hstatic, hname]⟩
  · obtain ⟨w, hw, hwv⟩ := view_of_stampType h hvt
    obtain ⟨hsame, hgave⟩ := gave_of_stampView hwv
    rw [hsame, hid]
    exact hgave
  · obtain ⟨y, hy, -, hyx⟩ := member_of_stampType h hx
    obtain ⟨hxid, -, hplacement⟩ := fields_of_stampInfo hyx
    refine finalName_eq_none_of_stampInfo hyx ?_
    rw [← Option.not_isSome_iff_eq_none, memberScope?_isSome]
    rintro (hprimary | ⟨-, v, hvt, hvy⟩)
    · rw [MemberInfo.onPrimarySurface, ← hplacement] at hprimary
      exact absurd (hp.symm.trans hprimary) (by decide)
    · rw [← hxid, not_holds_of_viewOf? h hnone v hvt] at hvy
      cases hvy

end Stamp

/-- The names given to a graph that was built of plain types are stamped as they were decided. -/
theorem Pipeline.stamped_of_name {types : List TypeSymbol} {aliases : List Alias} {g planned : SymbolGraph}
    {budget : Nat} {settings : Settings} {said : List Diagnostic} {named : Named}
    (hbuild : SymbolGraph.build types aliases = .ok g) (hplain : ∀ t ∈ types, t.Plain)
    (ha : analyze budget settings g = .ok (planned, said)) (hn : name settings planned said = .ok named) :
    ∀ t ∈ named.graph.types, t.Stamped named.ledger := by
  obtain ⟨-, stamped, hstamp, rfl⟩ := name_eq_ok_iff.1 hn
  have hplanned := planned_of_analyze hbuild hplain ha
  intro after hafter
  obtain ⟨t, ht, hst⟩ := Stamp.type_of_stampNames hstamp hafter
  exact Stamp.stamped_of_stampType (hplanned.views t ht) (hplanned.consistent.members t ht) hst

namespace Gate

variable {g : SymbolGraph} {l : Ledger} {t : TypeSymbol}

/-! ## What the gate looks at -/

/-- The part of the rules on stamps and on views that is about one type. -/
structure Passes (l : Ledger) (t : TypeSymbol) : Prop where
  type : compare? l (.type t.id) (.internal t.namespace) t.finalName = none
  members : ∀ x ∈ t.members.infos, stampOfMember? l t x.2 = none
  views : ∀ v ∈ t.views, viewFaults t v = []

theorem passes_of_violations (h : g.violations l = []) (ht : t ∈ g.types) : Passes l t := by
  simp only [SymbolGraph.violations, List.append_eq_nil_iff] at h
  obtain ⟨⟨⟨hstamps, -⟩, -⟩, hviews⟩ := h
  have hstamp := List.flatMap_eq_nil_iff.1 hstamps t ht
  have hview := List.flatMap_eq_nil_iff.1 hviews t ht
  rw [List.append_eq_nil_iff, List.filterMap_eq_nil_iff] at hstamp
  rw [List.append_eq_nil_iff, List.flatMap_eq_nil_iff] at hview
  exact ⟨Option.toList_eq_nil_iff.1 hstamp.1, hstamp.2, hview.1⟩

theorem Passes.type_gave (h : Passes l t) : l.Gave (.type t.id) (.internal t.namespace) t.finalName :=
  compare?_eq_none_iff.1 h.type

theorem Passes.surface_gave (h : Passes l t) {x : MemberKind × MemberInfo} (hx : x ∈ t.members.infos)
    (hp : x.2.onPrimarySurface = true) :
    l.Gave (.member x.2.id) (.ofSurface t.id x.2.isStatic) x.2.finalName := by
  have hstamp := h.members x hx
  unfold stampOfMember? at hstamp
  cases hplace : x.2.placement <;>
    simp only [MemberInfo.onPrimarySurface, Placement.isPrimary, hplace, Bool.false_eq_true] at hp hstamp
  · exact compare?_eq_none_iff.1 hstamp
  · exact compare?_eq_none_iff.1 hstamp

/-- A member that is only in views has the name from the first one that lists it. -/
theorem Passes.view_gave (h : Passes l t) {x : MemberKind × MemberInfo} (hx : x ∈ t.members.infos)
    (hp : x.2.placement = .viewOnly) {v : View} (hv : t.viewOf? x.2.id = some v) :
    l.Gave (.member x.2.id) (.ofView t.id v.interfaceId x.2.isStatic) x.2.finalName := by
  have hstamp := h.members x hx
  unfold stampOfMember? at hstamp
  simp only [hp, hv, Option.bind_some] at hstamp
  exact compare?_eq_none_iff.1 hstamp

theorem Passes.omitted_unnamed (h : Passes l t) {x : MemberKind × MemberInfo} (hx : x ∈ t.members.infos)
    (hp : x.2.placement = .omitted) : x.2.finalName = none := by
  have hstamp := h.members x hx
  unfold stampOfMember? at hstamp
  simpa only [hp, Option.map_eq_none_iff] using hstamp

theorem Passes.accessorName_ne_none (h : Passes l t) {v : View} (hv : v ∈ t.views) : v.accessorName ≠ none := by
  intro hnone
  have hfaults := h.views v hv
  unfold viewFaults at hfaults
  simp [hnone] at hfaults

/-! ## What is left to be wrong -/

theorem Passes.stamped_iff (h : Passes l t) : t.Stamped l ↔ t.StampedUnseen l := by
  constructor
  · intro hs
    refine ⟨fun v hv _ => hs.accessors v hv, fun x hx hp hnone => ?_,
      fun x hx v hv hholds => .inr (hs.viewed x hx v hv hholds)⟩
    exact hs.others x hx (by simp [MemberInfo.onPrimarySurface, hp, Placement.isPrimary]) hnone
  · intro hu
    refine ⟨h.type_gave, fun x hx hp => h.surface_gave hx hp, fun x hx v hv hholds => ?_,
      fun v hv => hu.accessors v hv (h.accessorName_ne_none hv), fun x hx hp hnone => ?_⟩
    · obtain ⟨hp, hfirst⟩ | hgave := hu.laterViews x hx v hv hholds
      · obtain ⟨w, hw, hinterface⟩ := Option.map_eq_some_iff.1 hfirst
        exact hinterface ▸ h.view_gave hx hp hw
      · exact hgave
    · cases hplace : x.2.placement with
      | viewOnly => exact hu.orphans x hx hplace hnone
      | omitted => exact h.omitted_unnamed hx hplace
      | classSurface => simp [MemberInfo.onPrimarySurface, hplace, Placement.isPrimary] at hp
      | staticSurface => simp [MemberInfo.onPrimarySurface, hplace, Placement.isPrimary] at hp

/-- A graph that passes the gate is stamped as the ledger decided exactly when it is so where the gate does not look. -/
theorem stamped_iff_stampedUnseen (g : SymbolGraph) (l : Ledger) (h : g.violations l = []) :
    (∀ t ∈ g.types, t.Stamped l) ↔ ∀ t ∈ g.types, t.StampedUnseen l :=
  forall₂_congr fun _ ht => (passes_of_violations h ht).stamped_iff

/-- A store with a method for a view of its own, as it is after naming; its views are given. -/
def namedStore (views : List View) : SymbolGraph :=
  let store := TypeDraft.start "app" "App.Store" .classType
    |>.method "Dispose" [] (Gallery.system "Void") fun info =>
      { info with placement := .viewOnly, finalName := some "Dispose" }
  ⟨[{ store.type with views := views, finalName := some "Store" }], []⟩

/-- The view of the store's method, with an accessor of the given name. -/
def disposableView (accessorName : String) : View where
  interface := Gallery.system "IDisposable"
  interfaceId := ⟨"core", "System.IDisposable"⟩
  accessorId := .of "app" "App.Store" "As_IDisposable" "view:core:System.IDisposable"
  members := [.of "app" "App.Store" "Dispose" "()"]
  accessorName := some accessorName

/-- The names of the store, its view and the method in it. -/
def storeLedger : Ledger :=
  (Ledger.empty .default).afterRequests [
    .of (.type ⟨"app", "App.Store"⟩) "Store" (.internal "App"),
    .of (.member (.of "app" "App.Store" "As_IDisposable" "view:core:System.IDisposable")) "As_IDisposable"
      (.ofSurface ⟨"app", "App.Store"⟩ false),
    .of (.member (.of "app" "App.Store" "Dispose" "()")) "Dispose"
      (.ofView ⟨"app", "App.Store"⟩ ⟨"core", "System.IDisposable"⟩ false)]

/-- The gate lets the store pass with its view, without it, and with an accessor of another name. -/
theorem violations_namedStore :
    ∀ views ∈ [[], [disposableView "As_IDisposable"], [disposableView "AsDisposable"]],
      (namedStore views).violations storeLedger = [] := by
  simp only [SymbolGraph.violations, uniqueness, reservedWords, Ledger.sortedDecisions, mergeSort_eq_sortTo]
  decide +kernel

/-- With its view, under the name that the accessor got, the store is stamped as the ledger decided. -/
theorem stamped_namedStore :
    (namedStore [disposableView "As_IDisposable"]).violations storeLedger = [] ∧
      ∀ t ∈ (namedStore [disposableView "As_IDisposable"]).types, t.Stamped storeLedger := by
  have hpasses := violations_namedStore [disposableView "As_IDisposable"] (by simp)
  have hunseen : ∀ t ∈ (namedStore [disposableView "As_IDisposable"]).types, t.StampedUnseen storeLedger := by
    intro t ht
    obtain rfl := List.mem_singleton.1 ht
    exact ⟨by decide +kernel, by decide +kernel, by decide +kernel⟩
  exact ⟨hpasses, (stamped_iff_stampedUnseen _ _ hpasses).2 hunseen⟩

/-- A method that has kept its name and lost its view passes, and so does an accessor that is not called what the ledger
calls it. -/
theorem not_stamped_namedStore :
    ((namedStore []).violations storeLedger = [] ∧ ¬ ∀ t ∈ (namedStore []).types, t.Stamped storeLedger) ∧
      (namedStore [disposableView "AsDisposable"]).violations storeLedger = [] ∧
      ¬ ∀ t ∈ (namedStore [disposableView "AsDisposable"]).types, t.Stamped storeLedger := by
  refine ⟨⟨violations_namedStore _ (by simp), fun h => ?_⟩, violations_namedStore _ (by simp), fun h => ?_⟩
  · exact absurd (h _ List.mem_cons_self).others (by decide +kernel)
  · exact absurd (h _ List.mem_cons_self).accessors (by decide +kernel)

end Gate

end Exonym
