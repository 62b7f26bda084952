import Exonym.TypeRef.Closing
import Mathlib.Data.List.Basic

/-!
# Moving parameters and moving them back

A rehoming changes the owners of parameters and nothing else. So what is moved can be moved back, as long as the owners
that are moved to do not occur before; and an owner is gone after a move that leads nowhere to it.

Main statements:

* `Rehoming.owners_apply`: whom the parameters belong to after a move.
* `Rehoming.same_apply_apply`: a reference that is moved and moved back is the same, up to tokens.
* `Rehoming.owner_insert_insert`: one more move that can be moved back.
-/

namespace Exonym

namespace SymbolId

/-- The type that is meant, or that declares the member. -/
def home : SymbolId → TypeId
  | .type id => id
  | .member id => id.declaringTypeId

@[simp] theorem home_bare (a : SymbolId) : a.bare.home = a.home := by cases a <;> rfl

/-- Symbols of different types are different. -/
theorem same_eq_false_of_home {a b : SymbolId} (h : a.home ≠ b.home) : a.same b = false :=
  Bool.eq_false_iff.2 fun hsame => h (by rw [← home_bare a, same_iff.1 hsame, home_bare])

@[simp] theorem same_refl (a : SymbolId) : a.same a = true := by simp [same]

end SymbolId

namespace TypeRef

mutual

/-- Whom the parameters that occur in a reference belong to, those inside constraints included. -/
def owners : TypeRef → List SymbolId
  | .named _ args _ => ownersAll args
  | .param key _ constraints => key.owner :: ownersAll constraints
  | .array element _ => element.owners
  | .pointer pointee _ => pointee.owners
  | .byRef referenced => referenced.owners
  | .nested declaring _ => declaring.owners

def ownersAll : List TypeRef → List SymbolId
  | [] => []
  | r :: rest => r.owners ++ ownersAll rest

end

end TypeRef

namespace Rehoming

open TypeRef

variable {m back : Rehoming} {old new o target : SymbolId}

/-! ## Owners -/

@[simp] theorem owner_empty (o : SymbolId) : empty.owner o = o := rfl

theorem owner_insert (m : Rehoming) (old new o : SymbolId) :
    (m.insert old new).owner o = if old.same o then new else m.owner o := by
  cases h : old.same o <;> simp [insert, owner, h]

/-- A move can be moved back if its goal does not occur after the other moves. -/
theorem owner_insert_insert (hback : (back.owner (m.owner o)).same o = true) (hnew : new.same (m.owner o) = false) :
    ((back.insert new old).owner ((m.insert old new).owner o)).same o = true := by
  rw [owner_insert m]
  cases hold : old.same o with
  | true => simpa [owner_insert] using hold
  | false => simpa [owner_insert, hnew] using hback

/-- No parameter belongs to the owner after the move. -/
def Leaves (m : Rehoming) (target : SymbolId) : Prop :=
  ∀ o, (m.owner o).same target = false

theorem leaves_insert_self (hnew : new.same old = false) (hm : ∀ o, o.same old = false → (m.owner o).same old = false) :
    (m.insert old new).Leaves old := by
  intro o
  rw [owner_insert]
  cases hold : old.same o with
  | true => simpa using hnew
  | false => simpa using hm o (by simpa [SymbolId.same, eq_comm] using hold)

theorem Leaves.insert (hm : m.Leaves target) (hnew : new.same target = false) :
    (m.insert old new).Leaves target := by
  intro o
  rw [owner_insert]
  split
  · exact hnew
  · exact hm o

/-! ## References -/

mutual

theorem owners_apply (m : Rehoming) : ∀ r : TypeRef, (m.apply r).owners = r.owners.map m.owner
  | .param _ _ constraints => by simp [apply, owners, ownersAll_applyAll m constraints]
  | .named _ args _ => by simp [apply, owners, ownersAll_applyAll m args]
  | .array e _ => by simp [apply, owners, owners_apply m e]
  | .pointer p _ => by simp [apply, owners, owners_apply m p]
  | .byRef r => by simp [apply, owners, owners_apply m r]
  | .nested d _ => by simp [apply, owners, owners_apply m d]

theorem ownersAll_applyAll (m : Rehoming) : ∀ rs : List TypeRef,
    ownersAll (m.applyAll rs) = (ownersAll rs).map m.owner
  | [] => rfl
  | r :: rest => by simp [applyAll, ownersAll, owners_apply m r, ownersAll_applyAll m rest]

end

theorem Leaves.owners_apply (hm : m.Leaves target) (r : TypeRef) : ∀ o ∈ (m.apply r).owners, o.same target = false := by
  rw [Rehoming.owners_apply, List.forall_mem_map]
  exact fun o _ => hm o

mutual

theorem bare_apply_apply : ∀ {r : TypeRef}, (∀ o ∈ r.owners, (back.owner (m.owner o)).same o = true) →
    (back.apply (m.apply r)).bare = r.bare
  | .param key _ constraints, h => by
    have hkey := SymbolId.same_iff.1 (h key.owner (by simp [owners]))
    have hconstraints := @bareAll_applyAll_applyAll constraints fun o ho => h o (List.mem_cons_of_mem _ ho)
    simp [apply, bare, ParamKey.bare, hkey, hconstraints]
  | .named _ args _, h => by simp [apply, bare, @bareAll_applyAll_applyAll args h]
  | .array e _, h => by simp [apply, bare, bare_apply_apply (r := e) h]
  | .pointer p _, h => by simp [apply, bare, bare_apply_apply (r := p) h]
  | .byRef r, h => by simp [apply, bare, bare_apply_apply (r := r) h]
  | .nested d _, h => by simp [apply, bare, bare_apply_apply (r := d) h]

theorem bareAll_applyAll_applyAll : ∀ {rs : List TypeRef},
    (∀ o ∈ ownersAll rs, (back.owner (m.owner o)).same o = true) → bareAll (back.applyAll (m.applyAll rs)) = bareAll rs
  | [], _ => rfl
  | r :: rest, h => by
    have hr := bare_apply_apply (r := r) fun o ho => h o (List.mem_append_left _ ho)
    have hrest := @bareAll_applyAll_applyAll rest fun o ho => h o (List.mem_append_right _ ho)
    simp [applyAll, bareAll, hr, hrest]

end

/-- A reference that is moved and moved back is the same. -/
theorem same_apply_apply {r : TypeRef} (h : ∀ o ∈ r.owners, (back.owner (m.owner o)).same o = true) :
    (back.apply (m.apply r)).same r = true :=
  same_iff.2 (bare_apply_apply h)

end Rehoming

end Exonym
