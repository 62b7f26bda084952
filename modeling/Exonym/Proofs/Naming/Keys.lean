import Exonym.Proofs.Pipeline.Stages
import Exonym.Proofs.Naming.Stamped
import Exonym.Sample.Gallery

/-!
# Scopes as they are written

A ledger keeps its decisions by scopes, and what is handed out has the key of the scope in place of the scope. Kinds of
scopes have different keys, and the keys of namespaces and of imports tell what they are for. Identities of types are
written into keys with colons between their parts, and a part that has a colon itself may be read in two ways: two types
may have one key, and so may two views. Where this happens, decisions of two scopes look like decisions of one.

Main statements:

* `Scope.key_eq_iff`: which scopes have one key.
* `Ledger.Coherent.readable_iff_keepsApart`: decisions can be read by keys when scopes of one key share no name.
* `Pipeline.readable_iff`: what a run hands out can be read by keys exactly when types and views that look alike have no
  names in common, as they do not where there are no colons.
-/

namespace Exonym

/-! ## Texts with separators -/

/-- Texts are different when they end in texts that end in different characters. -/
theorem append_ne_append {a b x y : String} (hx : x.toList ≠ []) (hy : y.toList ≠ [])
    (h : x.toList.getLast? ≠ y.toList.getLast?) : a ++ x ≠ b ++ y := by
  intro hab
  have hlast := congrArg (fun s => s.toList.getLast?) hab
  rw [String.toList_append, String.toList_append, List.getLast?_append_of_ne_nil _ hx,
    List.getLast?_append_of_ne_nil _ hy] at hlast
  exact h hlast

theorem TypeId.eq_of_toList {a b : TypeId} (hmodule : a.module.toList = b.module.toList)
    (hname : a.fullName.toList = b.fullName.toList) : a = b := by
  cases a
  cases b
  rw [TypeId.mk.injEq]
  exact ⟨String.toList_inj.1 hmodule, String.toList_inj.1 hname⟩

/-- The text of a type is read back where its module has no colon. -/
theorem TypeId.eq_of_text {a b : TypeId} (h : a.text = b.text) (ha : ':' ∉ a.module.toList)
    (hb : ':' ∉ b.module.toList) : a = b := by
  have hlists : a.module.toList ++ ':' :: a.fullName.toList = b.module.toList ++ ':' :: b.fullName.toList := by
    have := congrArg String.toList h
    simpa [text] using this
  obtain ⟨hmodule, hname⟩ := Cut.eq_of_append hlists ha hb
  exact eq_of_toList hmodule hname

/-! ## Keys of scopes -/

namespace Surface

/-- What stands before the surface in a key, and the surface, are read off the key. -/
theorem append_text_inj {a b : String} {s r : Surface} : a ++ "#" ++ s.text = b ++ "#" ++ r.text ↔ a = b ∧ s = r := by
  cases s <;> cases r
  · simp [String.append_left_inj]
  · exact iff_of_false (append_ne_append (by decide) (by decide) (by decide)) (by simp)
  · exact iff_of_false (append_ne_append (by decide) (by decide) (by decide)) (by simp)
  · simp [String.append_left_inj]

end Surface

namespace Scope

/-- The two identities of a view as they stand in its key. -/
def viewText (owner interface : TypeId) : String :=
  owner.text ++ ":" ++ interface.text

/-- Scopes of one kind of which the same is written. -/
def LooksLike : Scope → Scope → Prop
  | .namespace a i, .namespace b j => a = b ∧ i = j
  | .type a s, .type b r => a.text = b.text ∧ s = r
  | .view a i s, .view b j r => viewText a i = viewText b j ∧ s = r
  | .imports a, .imports b => a = b
  | _, _ => False

theorem key_namespace_eq_iff {a b : String} {i j : Bool} :
    (Scope.namespace a i).key = (Scope.namespace b j).key ↔ a = b ∧ i = j := by
  show "ns:" ++ a ++ ":" ++ _ = "ns:" ++ b ++ ":" ++ _ ↔ _
  cases i <;> cases j
  · simp [String.append_left_inj, String.append_right_inj]
  · exact iff_of_false (append_ne_append (by decide) (by decide) (by decide)) (by simp)
  · exact iff_of_false (append_ne_append (by decide) (by decide) (by decide)) (by simp)
  · simp [String.append_left_inj, String.append_right_inj]

theorem key_type_eq_iff {a b : TypeId} {s r : Surface} :
    (Scope.type a s).key = (Scope.type b r).key ↔ a.text = b.text ∧ s = r := by
  show "type:" ++ a.text ++ "#" ++ _ = "type:" ++ b.text ++ "#" ++ _ ↔ _
  rw [Surface.append_text_inj, String.append_right_inj]

theorem key_view_eq_iff {a b i j : TypeId} {s r : Surface} :
    (Scope.view a i s).key = (Scope.view b j r).key ↔ viewText a i = viewText b j ∧ s = r := by
  have hkey : ∀ (owner interface : TypeId) (surface : Surface),
      (Scope.view owner interface surface).key = "view:" ++ viewText owner interface ++ "#" ++ surface.text := by
    intro owner interface surface
    show "view:" ++ owner.text ++ ":" ++ interface.text ++ "#" ++ surface.text = _
    unfold viewText
    rw [← String.append_assoc, ← String.append_assoc]
  rw [hkey, hkey, Surface.append_text_inj, String.append_right_inj]

theorem key_imports_eq_iff {a b : String} : (Scope.imports a).key = (Scope.imports b).key ↔ a = b :=
  String.append_right_inj "import:"

/-- The first letter of a key tells the kind of the scope. -/
theorem rank_eq_of_key {a b : Scope} (h : a.key = b.key) : a.rank = b.rank := by
  have hfirst := congrArg (fun s => s.toList.head?) h
  cases a <;> cases b <;> first | rfl | simp [key] at hfirst

theorem key_eq_iff {a b : Scope} : a.key = b.key ↔ a.LooksLike b := by
  cases a <;> cases b
  -- scopes of one kind
  case namespace.namespace => exact key_namespace_eq_iff
  case type.type => exact key_type_eq_iff
  case view.view => exact key_view_eq_iff
  case imports.imports => exact key_imports_eq_iff
  -- kinds differ, and with them the first letters
  all_goals exact iff_of_false (fun h => by cases rank_eq_of_key h) id

/-- The identities of a view are read back where there are no colons in modules and in the name of the owner. -/
theorem eq_of_viewText {owner owner' interface interface' : TypeId}
    (h : viewText owner interface = viewText owner' interface') (hmodule : ':' ∉ owner.module.toList)
    (hmodule' : ':' ∉ owner'.module.toList) (hname : ':' ∉ owner.fullName.toList)
    (hname' : ':' ∉ owner'.fullName.toList) (hinterface : ':' ∉ interface.module.toList)
    (hinterface' : ':' ∉ interface'.module.toList) : owner = owner' ∧ interface = interface' := by
  have hlists : owner.module.toList ++ ':' :: (owner.fullName.toList ++ ':' :: interface.text.toList) =
      owner'.module.toList ++ ':' :: (owner'.fullName.toList ++ ':' :: interface'.text.toList) := by
    have := congrArg String.toList h
    simpa [viewText, TypeId.text] using this
  obtain ⟨hmodules, hrest⟩ := Cut.eq_of_append hlists hmodule hmodule'
  obtain ⟨hnames, htexts⟩ := Cut.eq_of_append hrest hname hname'
  exact ⟨TypeId.eq_of_toList hmodules hnames, TypeId.eq_of_text (String.toList_inj.1 htexts) hinterface hinterface'⟩

end Scope

/-! ## Decisions with keys -/

/-- Decisions that have one key and one name are about one symbol, or are of one overload group. -/
def Decision.Readable (ds : List Decision) : Prop :=
  ∀ d ∈ ds, ∀ e ∈ ds, d.scope.key = e.scope.key → d.finalName = e.finalName → d.id.same e.id = false → d.Grouped e

namespace Ledger

/-- Symbols that have one name, one in the first scope and one in the second, are one or are of one overload group. -/
def KeepsApart (l : Ledger) (s s' : Scope) : Prop :=
  ∀ d ∈ l.decisionsIn s, ∀ e ∈ l.decisionsIn s', d.finalName = e.finalName → d.id.same e.id = false → d.Grouped e

/-- Within a scope names are told apart anyway, so it is other scopes of its key that matter. -/
theorem Coherent.readable_iff_keepsApart {l : Ledger} (hl : l.Coherent) : Decision.Readable l.sortedDecisions ↔
    ∀ s s' : Scope, s ≠ s' → s.LooksLike s' → l.KeepsApart s s' := by
  unfold Decision.Readable sortedDecisions
  simp only [List.mem_mergeSort]
  constructor
  · intro hreadable s s' _ hlooks d hd e he hname hid
    obtain ⟨hmem, rfl⟩ := mem_decisionsIn.1 hd
    obtain ⟨hmem', rfl⟩ := mem_decisionsIn.1 he
    exact hreadable d hmem e hmem' (Scope.key_eq_iff.2 hlooks) hname hid
  · intro hapart d hd e he hkey hname hid
    by_cases hscope : d.scope = e.scope
    · exact (hl.apart hd he hid hscope).2.1 hname
    · exact hapart d.scope e.scope hscope (Scope.key_eq_iff.1 hkey) d (mem_decisionsIn.2 ⟨hd, rfl⟩) e
        (mem_decisionsIn.2 ⟨he, rfl⟩) hname hid

end Ledger

/-! ## Scopes of a graph -/

/-- The scopes that there are names in for a graph: those of its types and views, and those of namespaces. -/
inductive Scope.Within (g : SymbolGraph) : Scope → Prop
  | «namespace» (name : String) (isInternal : Bool) : Within g (.namespace name isInternal)
  | surface {t : TypeSymbol} (ht : t ∈ g.types) (isStatic : Bool) : Within g (.ofSurface t.id isStatic)
  | view {t : TypeSymbol} {v : View} (ht : t ∈ g.types) (hv : v ∈ t.views) (isStatic : Bool) :
      Within g (.ofView t.id v.interfaceId isStatic)
  | imports (target : String) : Within g (.imports target)

theorem NamingStep.within_of_mem_plan {g : SymbolGraph} {s : NamingStep} (hs : s ∈ plan g) : s.scope.Within g := by
  cases mem_plan_iff.1 hs with
  | type ht hmem =>
    obtain ⟨-, ⟨isInternal, hscope⟩, -⟩ := of_mem_ofType hmem
    rw [hscope]
    exact .namespace _ _
  | surface ht hx hp =>
    rw [scope_ofMember]
    exact .surface ht _
  | accessor ht hv => exact .surface ht false
  | viewed ht hv hid hfind => exact .view ht hv _
  | «import» hns hmem =>
    rw [(of_mem_ofImports hmem).1]
    exact .imports _

/-- Stamping keeps types and views where they are. -/
theorem Scope.Within.stamped {g after : SymbolGraph} {l : Ledger} (h : g.stampNames l = .ok after) {s : Scope}
    (hs : s.Within g) : s.Within after := by
  cases hs with
  | «namespace» name isInternal => exact .namespace name isInternal
  | surface ht isStatic =>
    obtain ⟨u, hu, hstamp⟩ := Stamp.exists_type_of_stampNames h ht
    rw [← Stamp.id_of_stampType hstamp]
    exact .surface hu isStatic
  | view ht hv isStatic =>
    obtain ⟨u, hu, hstamp⟩ := Stamp.exists_type_of_stampNames h ht
    obtain ⟨accessorName, hw⟩ := Stamp.exists_view_of_stampType hstamp hv
    rw [← Stamp.id_of_stampType hstamp]
    exact .view hu hw isStatic
  | imports target => exact .imports target

/-! ## What a run hands out -/

namespace Pipeline

variable {budget : Nat} {settings : Settings} {g : SymbolGraph} {named : Named}

/-- Every decision of a run is in a scope of the graph that comes out, and names are told apart in each of them. -/
theorem within_of_run (hrun : run budget settings g = .ok named) :
    named.ledger.Coherent ∧ ∀ d ∈ named.ledger.decisions, d.scope.Within named.graph := by
  obtain ⟨planned, said, -, hn, -⟩ := run_eq_ok_iff.1 hrun
  obtain ⟨-, stamped, hstamp, rfl⟩ := name_eq_ok_iff.1 hn
  refine ⟨SymbolGraph.coherent_reserveNames planned settings.naming, fun d hd => ?_⟩
  obtain ⟨s, hs, -, hscope, -⟩ := NamingRun.origin_of_run hd
  rw [hscope]
  exact (NamingStep.within_of_mem_plan hs).stamped hstamp

end Pipeline

namespace Named

/-- Types of one text, and views of one text, have no names in common. -/
structure KeepsLookalikesApart (n : Named) : Prop where
  types : ∀ t ∈ n.graph.types, ∀ u ∈ n.graph.types, t.id ≠ u.id → t.id.text = u.id.text →
    ∀ isStatic, n.ledger.KeepsApart (.ofSurface t.id isStatic) (.ofSurface u.id isStatic)
  views : ∀ t ∈ n.graph.types, ∀ v ∈ t.views, ∀ u ∈ n.graph.types, ∀ w ∈ u.views,
    (t.id ≠ u.id ∨ v.interfaceId ≠ w.interfaceId) →
      Scope.viewText t.id v.interfaceId = Scope.viewText u.id w.interfaceId →
        ∀ isStatic, n.ledger.KeepsApart (.ofView t.id v.interfaceId isStatic) (.ofView u.id w.interfaceId isStatic)

variable {n : Named}

theorem KeepsLookalikesApart.keepsApart (h : n.KeepsLookalikesApart) {s s' : Scope} (hs : s.Within n.graph)
    (hs' : s'.Within n.graph) (hne : s ≠ s') (hlooks : s.LooksLike s') : n.ledger.KeepsApart s s' := by
  cases hs with
  | «namespace» name isInternal =>
    cases hs' with
    | «namespace» name' isInternal' =>
      obtain ⟨rfl, rfl⟩ : name = name' ∧ isInternal = isInternal' := hlooks
      exact absurd rfl hne
    | surface | view | imports => cases hlooks
  | @surface t ht isStatic =>
    cases hs' with
    | @surface u hu isStatic' =>
      obtain ⟨htext, hsurface⟩ : t.id.text = u.id.text ∧ Surface.of isStatic = .of isStatic' := hlooks
      obtain rfl := Surface.of_inj.1 hsurface
      exact h.types t ht u hu (fun hid => hne (by rw [hid])) htext isStatic
    | «namespace» | view | imports => cases hlooks
  | @view t v ht hv isStatic =>
    cases hs' with
    | @view u w hu hw isStatic' =>
      obtain ⟨htext, hsurface⟩ : Scope.viewText t.id v.interfaceId = Scope.viewText u.id w.interfaceId ∧
        Surface.of isStatic = .of isStatic' := hlooks
      obtain rfl := Surface.of_inj.1 hsurface
      refine h.views t ht v hv u hu w hw ?_ htext isStatic
      by_contra hsame
      rw [not_or, not_not, not_not] at hsame
      exact hne (by rw [hsame.1, hsame.2])
    | «namespace» | surface | imports => cases hlooks
  | imports target =>
    cases hs' with
    | imports target' =>
      obtain rfl : target = target' := hlooks
      exact absurd rfl hne
    | «namespace» | surface | view => cases hlooks

end Named

/-- There are no colons where they would keep the key of the type, or of one of its views, from being read back. -/
structure TypeSymbol.Legible (t : TypeSymbol) : Prop where
  module : ':' ∉ t.id.module.toList
  name : t.views ≠ [] → ':' ∉ t.id.fullName.toList
  interfaces : ∀ v ∈ t.views, ':' ∉ v.interfaceId.module.toList

/-- What can be read back is not mixed up. -/
theorem Named.keepsLookalikesApart_of_legible {n : Named} (h : ∀ t ∈ n.graph.types, t.Legible) :
    n.KeepsLookalikesApart := by
  refine ⟨fun t ht u hu hne htext => ?_, fun t ht v hv u hu w hw hne htext => ?_⟩
  · exact absurd (TypeId.eq_of_text htext (h t ht).module (h u hu).module) hne
  · obtain ⟨hid, hinterface⟩ := Scope.eq_of_viewText htext (h t ht).module (h u hu).module
      ((h t ht).name (List.ne_nil_of_mem hv)) ((h u hu).name (List.ne_nil_of_mem hw)) ((h t ht).interfaces v hv)
      ((h u hu).interfaces w hw)
    exact absurd hne (by simp [hid, hinterface])

namespace Pipeline

variable {budget : Nat} {settings : Settings} {g : SymbolGraph} {named : Named}

/-- The decisions of a run can be told apart by their keys exactly when types and views that look alike in keys have no
names in common. This is so where there are no colons in modules and in the names of types that have views. -/
theorem readable_iff (hrun : run budget settings g = .ok named) :
    (Decision.Readable named.ledger.sortedDecisions ↔ named.KeepsLookalikesApart) ∧
      ((∀ t ∈ named.graph.types, t.Legible) → Decision.Readable named.ledger.sortedDecisions) := by
  obtain ⟨hcoherent, hwithin⟩ := within_of_run hrun
  have hiff : Decision.Readable named.ledger.sortedDecisions ↔ named.KeepsLookalikesApart := by
    rw [hcoherent.readable_iff_keepsApart]
    constructor
    · intro hapart
      refine ⟨fun t _ u _ hne htext isStatic => ?_, fun t _ v _ u _ w _ hne htext isStatic => ?_⟩
      · exact hapart _ _ (fun hscope => hne (Scope.type.inj hscope).1) ⟨htext, rfl⟩
      · refine hapart _ _ (fun hscope => ?_) ⟨htext, rfl⟩
        obtain ⟨hid, hinterface, -⟩ := Scope.view.inj hscope
        exact hne.elim (· hid) (· hinterface)
    · intro hapart s s' hne hlooks d hd e he
      obtain ⟨hmem, rfl⟩ := Ledger.mem_decisionsIn.1 hd
      obtain ⟨hmem', rfl⟩ := Ledger.mem_decisionsIn.1 he
      exact hapart.keepsApart (hwithin d hmem) (hwithin e hmem') hne hlooks d hd e he
  exact ⟨hiff, fun hlegible => hiff.2 (Named.keepsLookalikesApart_of_legible hlegible)⟩

/-- The decisions about a store with a view can be told apart. -/
theorem readable_of_store :
    ∃ g named, SymbolGraph.build Gallery.store [] = .ok g ∧ run 10 .default g = .ok named ∧
      (∃ t ∈ named.graph.types, t.views.length = 1) ∧ named.KeepsLookalikesApart ∧
      Decision.Readable named.ledger.sortedDecisions := by
  have hruns : (SymbolGraph.build Gallery.store []).toOption.any (fun g => (run 10 .default g).toOption.any fun named =>
      (∃ t ∈ named.graph.types, t.views.length = 1) ∧ ∀ t ∈ named.graph.types, ':' ∉ t.id.module.toList ∧
        ':' ∉ t.id.fullName.toList ∧ ∀ v ∈ t.views, ':' ∉ v.interfaceId.module.toList) = true := by
    simp only [SymbolGraph.build, SymbolGraph.extend, SymbolGraph.sortTypes, SymbolGraph.settle_eq,
      SymbolGraph.sortAliases, run, analyze, SymbolGraph.analyzeInterfaces, SymbolGraph.resolveOverloads,
      TypeSymbol.conflicts, TypeSymbol.buckets, TypeSymbol.candidates, Conflict.inBucket, Conflict.among,
      SymbolGraph.planViews, TypeSymbol.planViews, sortMembers, name, SymbolGraph.reserveNames, NamingStep.plan,
      NamingStep.ofMembers, NamingStep.surfaceMembers, SymbolGraph.violations, Gate.uniqueness, Gate.reservedWords,
      Ledger.sortedDecisions, mergeSort_eq_sortTo]
    decide +kernel
  obtain ⟨g, hbuild, hruns⟩ := exists_of_any hruns
  obtain ⟨named, hrun, hcolons⟩ := exists_of_any hruns
  obtain ⟨hview, hcolons⟩ := of_decide_eq_true hcolons
  obtain ⟨hiff, hlegible⟩ := readable_iff hrun
  have hreadable := hlegible fun t ht => ⟨(hcolons t ht).1, fun _ => (hcolons t ht).2.1, (hcolons t ht).2.2⟩
  exact ⟨g, named, hbuild, hrun, hview, hiff.1 hreadable, hreadable⟩

/-- A field of one type, and a method of another, under one name. The types have the same text. -/
def lookalikes : List TypeSymbol := [
  (TypeDraft.start "a" "b:c" .classType |>.field "Run" (Gallery.system "Int32")).type,
  (TypeDraft.start "a:b" "c" .classType |>.method "Run" [] (Gallery.system "Void") id).type]

/-- The field and the method keep their name, and look like two members of one type of which only one is in a group. -/
theorem not_readable_of_lookalikes :
    ∃ g named, SymbolGraph.build lookalikes [] = .ok g ∧ run 10 .default g = .ok named ∧
      ¬ Decision.Readable named.ledger.sortedDecisions := by
  have hruns : (SymbolGraph.build lookalikes []).toOption.any (fun g => (run 10 .default g).toOption.any fun named =>
      ∃ d ∈ named.ledger.decisions, ∃ e ∈ named.ledger.decisions, d.scope.key = e.scope.key ∧
        d.finalName = e.finalName ∧ d.id.same e.id = false ∧ d.id.text ≠ e.id.text ∧ d.group = none) = true := by
    simp only [SymbolGraph.build, SymbolGraph.extend, SymbolGraph.sortTypes, SymbolGraph.settle_eq,
      SymbolGraph.sortAliases, run, analyze, SymbolGraph.analyzeInterfaces, SymbolGraph.resolveOverloads,
      TypeSymbol.conflicts, TypeSymbol.buckets, TypeSymbol.candidates, Conflict.inBucket, Conflict.among,
      SymbolGraph.planViews, TypeSymbol.planViews, sortMembers, name, SymbolGraph.reserveNames, NamingStep.plan,
      NamingStep.ofMembers, NamingStep.surfaceMembers, SymbolGraph.violations, Gate.uniqueness, Gate.reservedWords,
      Ledger.sortedDecisions, mergeSort_eq_sortTo]
    decide +kernel
  obtain ⟨g, hbuild, hruns⟩ := exists_of_any hruns
  obtain ⟨named, hrun, hpair⟩ := exists_of_any hruns
  obtain ⟨d, hd, e, he, hkey, hname, hid, -, hgroup⟩ := of_decide_eq_true hpair
  refine ⟨g, named, hbuild, hrun, fun hreadable => ?_⟩
  obtain ⟨group, hsome, -⟩ := hreadable d (List.mem_mergeSort.2 hd) e (List.mem_mergeSort.2 he) hkey hname hid
  rw [hgroup] at hsome
  cases hsome

end Pipeline

end Exonym
