import Exonym.Proofs.View.Fates

/-!
# Whether the reference of a view tells its interface

A view refers to its interface as a member or the type itself does, and then the reference points at the interface. Only
where nothing refers to the interface is a reference made from the identity alone, and there is one thing that it does not
keep: an arity is a number, so that zeros and a plus sign before it are gone.

Main statements:

* `TypeId.fullName_eq`: the full name is put together from the namespace and the simple name.
* `View.id?_openReference_iff`: when a reference that is made from an identity has that identity.
* `TypeSymbol.identified_iff`: when the reference of a view points at the interface of the view.
* `TypeSymbol.misidentified_of_rack`: a view whose reference does not.
-/

namespace Exonym

namespace TypeId

/-- What stands after the last arity mark of the simple name. -/
def arityText? (id : TypeId) : Option String :=
  (Cut.textLast? arityMark id.simpleName).map (·.2)

/-- The simple name ends in an arity that is a number, but with a plus sign or a zero before it, or zero itself. -/
def HasPaddedArity (id : TypeId) : Prop :=
  ∃ arity ∈ id.arityText?, (Digits.signedBelow? UInt32.size arity).isSome = true ∧
    (arity.toList.head? = some '+' ∨ arity.toList.head? = some '0')

instance : DecidablePred HasPaddedArity := fun id =>
  match h : id.arityText? with
  | none => .isFalse fun ⟨arity, harity, _⟩ => by simp [h] at harity
  | some arity =>
    decidable_of_iff ((Digits.signedBelow? UInt32.size arity).isSome = true ∧
      (arity.toList.head? = some '+' ∨ arity.toList.head? = some '0')) (by simp [HasPaddedArity, h])

/-- What stands before the last dot of the outermost name stands at the front of the full name, with a dot behind it. -/
theorem exists_fullName_eq {id : TypeId} (h : id.namespace ≠ "") :
    ∃ rest, id.fullName.toList = id.namespace.toList ++ '.' :: rest := by
  have houter : ∃ rest, id.fullName.toList = id.outerName.toList ++ rest := by
    unfold outerName Cut.textFirst?
    cases hcut : Cut.first? '+' id.fullName.toList with
    | none => exact ⟨[], by simp⟩
    | some parts => exact ⟨'+' :: parts.2, by simpa using (Cut.first?_eq_some_iff.1 hcut).1⟩
  obtain ⟨rest, hrest⟩ := houter
  unfold «namespace» Cut.textLast? at h ⊢
  cases hcut : Cut.last? '.' id.outerName.toList with
  | none => simp [hcut] at h
  | some parts => exact ⟨parts.2 ++ rest, by simp [hrest, (Cut.last?_eq_some_iff.1 hcut).1]⟩

theorem fullName_eq (id : TypeId) :
    id.fullName = if id.namespace = "" then id.simpleName else id.namespace ++ "." ++ id.simpleName := by
  unfold simpleName
  split
  · rfl
  · rename_i h
    obtain ⟨rest, hrest⟩ := exists_fullName_eq h
    apply String.toList_inj.1
    simp [hrest, List.drop_append]

end TypeId

namespace View

/-- A name in the namespace of an identity is that of the identity if the simple names are the same. -/
theorem id?_named_iff {id : TypeId} {name : String} {arity : UInt32} :
    (TypeRef.named ⟨id.module, id.namespace, name, arity⟩ [] false).id? = some id ↔
      (TypeName.mk id.module id.namespace name arity).sourceName = id.simpleName := by
  have hid : ∀ fullName : String, (some (TypeId.mk id.module fullName) = some id) = (fullName = id.fullName) := by
    intro fullName
    cases id
    simp
  rw [TypeRef.id?, TypeName.id, hid, TypeId.fullName_eq, TypeName.fullName, TypeName.qualify]
  simp only
  split
  · rfl
  · simp [← String.toList_inj]

/-- A reference that is made from an identity has that identity, unless its arity is padded. -/
theorem id?_openReference_iff (id : TypeId) : (openReference id).id? = some id ↔ ¬id.HasPaddedArity := by
  simp only [TypeId.HasPaddedArity, TypeId.arityText?, openReference, id?_named_iff, TypeName.sourceName]
  cases hcut : Cut.textLast? arityMark id.simpleName with
  | none => simp
  | some parts =>
    obtain ⟨name, arity⟩ := parts
    cases hnumber : Digits.signedBelow? UInt32.size arity with
    | none => simp [hnumber]
    | some n =>
      have hsimple : id.simpleName = name ++ arityMark.toString ++ arity := by
        obtain ⟨⟨before, after⟩, hlast, hparts⟩ := Option.map_eq_some_iff.1 hcut
        obtain ⟨rfl, rfl⟩ := Prod.mk.inj hparts
        apply String.toList_inj.1
        simp [(Cut.last?_eq_some_iff.1 hlast).1]
      have hlt := Digits.value_lt hnumber
      have hzero : UInt32.ofNat n = 0 ↔ n = 0 := by
        rw [← UInt32.toNat_inj, UInt32.toNat_ofNat_of_lt' hlt]
        rfl
      simp only [hnumber, Option.bind_some, Option.map_some, Option.getD_some, hsimple, hzero,
        UInt32.toNat_ofNat_of_lt' hlt]
      have hpadded : (¬∃ text ∈ some arity, (Digits.signedBelow? UInt32.size text).isSome = true ∧
          (text.toList.head? = some '+' ∨ text.toList.head? = some '0')) ↔ n ≠ 0 ∧ arity = toString n := by
        rw [Digits.eq_toString_iff hnumber]
        simp [hnumber]
      rw [hpadded]
      split
      · rename_i hn
        -- without its arity the name is too short
        simp [hn, ← String.toList_inj]
      · rename_i hn
        simp [hn, ← String.toList_inj, eq_comm]

end View

namespace TypeSymbol

variable {t : TypeSymbol}

/-- Where all that is implemented explicitly has an identity, the reference of a view is that of a member, one that the
type lists, or made from the identity. -/
theorem id?_or_made_of_mem_planViews (h : ∀ x ∈ t.members.infos, ∀ e ∈ x.2.explicitInterface, e.id?.isSome = true)
    {v : View} (hv : v ∈ t.planViews.views) :
    v.interface.id? = some v.interfaceId ∨ v.interface = View.openReference v.interfaceId := by
  obtain ⟨x, hx, -, hview, hinterface⟩ := (plannedFor_of_mem_planViews hv).reference
  rw [hinterface]
  rcases View.interfaceOf_cases (t := t) hview with hid | hmade | ⟨hnone, hexplicit, -⟩
  · exact .inl hid
  · exact .inr hmade
  · have := h x hx _ hexplicit
    rw [hnone] at this
    cases this

/-- Where all that is implemented explicitly has an identity, the reference of a view points at the interface of the view
unless it is made from an identity with a padded arity; and a reference that is made from an identity points at what has
the identity unless its arity is padded. -/
theorem identified_iff (h : ∀ x ∈ t.members.infos, ∀ e ∈ x.2.explicitInterface, e.id?.isSome = true) :
    (∀ v ∈ t.planViews.views, v.interface.id? = some v.interfaceId ↔
      ¬(v.interface = View.openReference v.interfaceId ∧ v.interfaceId.HasPaddedArity)) ∧
    ∀ id, (View.openReference id).id? = some id ↔ ¬id.HasPaddedArity := by
  refine ⟨fun v hv => ⟨?_, fun hunpadded => ?_⟩, View.id?_openReference_iff⟩
  · rintro hid ⟨hmade, hpadded⟩
    exact (View.id?_openReference_iff _).1 (hmade ▸ hid) hpadded
  · rcases id?_or_made_of_mem_planViews h hv with hid | hmade
    · exact hid
    · rw [hmade]
      exact (View.id?_openReference_iff _).2 fun hpadded => hunpadded ⟨hmade, hpadded⟩

/-- A member that is reached through an interface only. -/
def viewedThrough (interface : TypeId) (info : MemberInfo) : MemberInfo :=
  { info with placement := .viewOnly, provenance := .fromInterface, sourceInterface := some interface }

/-- A type that is reached through an interface that it implements explicitly, through one that it lists, through one
that is nested in a generic type of no namespace, and through one whose arity has a zero before it. -/
def rack : TypeSymbol :=
  (Gallery.draft "App.Rack" .classType
    |>.implements (.generic "core" "System" "IEquatable" [Gallery.app "App" "Rack"])
    |>.explicitMethod (Gallery.system "IDisposable") "Dispose" (Gallery.system "Void")
    |>.method "Equals" [] (Gallery.system "Boolean") (viewedThrough ⟨"core", "System.IEquatable`1"⟩)
    |>.method "Lift" [] (Gallery.system "Void") (viewedThrough ⟨"app", "Crane`1+ILift`2"⟩)
    |>.method "Stack" [] (Gallery.system "Void") (viewedThrough ⟨"core", "System.IStack`01"⟩)).type

theorem identified_iff_rack :
    (∀ x ∈ rack.members.infos, ∀ e ∈ x.2.explicitInterface, e.id?.isSome = true) ∧
      rack.planViews.views.length = 4 ∧
      (∀ v ∈ rack.planViews.views, v.interface.id? = some v.interfaceId ↔
        ¬(v.interface = View.openReference v.interfaceId ∧ v.interfaceId.HasPaddedArity)) ∧
      ∀ id, (View.openReference id).id? = some id ↔ ¬id.HasPaddedArity := by
  have h : ∀ x ∈ rack.members.infos, ∀ e ∈ x.2.explicitInterface, e.id?.isSome = true := by decide +kernel
  refine ⟨h, ?_, identified_iff h⟩
  simp only [planViews, mergeSort_eq_sortTo]
  decide +kernel

/-- The last of the views has a reference to `IStack` with one parameter, which is another interface. -/
theorem misidentified_of_rack :
    (∀ x ∈ rack.members.infos, ∀ e ∈ x.2.explicitInterface, e.id?.isSome = true) ∧
      ∃ v ∈ rack.planViews.views, v.interfaceId = ⟨"core", "System.IStack`01"⟩ ∧
        v.interface.id? = some ⟨"core", "System.IStack`1"⟩ ∧ v.interface.id? ≠ some v.interfaceId := by
  refine ⟨by decide +kernel, ?_⟩
  simp only [planViews, sortMembers, mergeSort_eq_sortTo]
  decide +kernel

end TypeSymbol

end Exonym
