import Exonym.TypeRef.Closing
import Mathlib.Data.List.Basic

/-!
# Tokens take no part in closing references

References that are equal up to tokens point at one definition, and closing them gives references that are equal up to
tokens. So the hierarchy of interfaces can be looked at without any tokens.

Main statements:

* `TypeRef.id?_bare`: what a reference points at.
* `Substitution.bare_applyWithin`, `Substitution.bare_apply`: dropping tokens before closing or after it.
-/

namespace Exonym

@[simp] theorem TypeRef.id?_bare : ∀ r : TypeRef, r.bare.id? = r.id?
  | .named _ _ _ => rfl
  | .nested d _ => by simp [bare, id?, id?_bare d]
  | .param _ _ _ | .array _ _ | .pointer _ _ | .byRef _ => rfl

theorem TypeRef.any_same_iff {rs : List TypeRef} {r : TypeRef} :
    rs.any (·.same r) = true ↔ r.bare ∈ rs.map TypeRef.bare := by
  simp [same_iff]

namespace ParamKey

theorem same_iff {a b : ParamKey} : a.same b = true ↔ a.bare = b.bare := by simp [same]

@[simp] theorem same_bare_bare (a b : ParamKey) : a.bare.same b.bare = a.same b := by simp [same]

end ParamKey

namespace Substitution

/-- The substitution with the tokens of all owners dropped. -/
def bare (s : Substitution) : Substitution :=
  ⟨s.entries.map fun entry => (entry.1.bare, entry.2.bare)⟩

theorem lookup?_bare (s : Substitution) (key : ParamKey) :
    s.bare.lookup? key.bare = (s.lookup? key).map TypeRef.bare := by
  unfold lookup? bare
  rw [List.find?_map, Option.map_map, Option.map_map]
  simp [Function.comp_def]

theorem forArguments_bare (owner : TypeId) (args : List TypeRef) :
    (forArguments (.type owner) args).bare = forArguments (.type owner) (args.map TypeRef.bare) := by
  simp [forArguments, bare, ParamKey.bare, SymbolId.bare, List.zipIdx_map, Function.comp_def]

mutual

theorem bare_applyWithin (s : Substitution) (path : List ParamKey) : ∀ r : TypeRef,
    (s.applyWithin path r).bare = s.bare.applyWithin (path.map ParamKey.bare) r.bare
  | .param key name constraints => by
    have hconstraints := bareAll_applyAll s (key :: path) constraints
    have hpath : (path.map ParamKey.bare).any (·.same key.bare) = path.any (·.same key) := by
      simp [Function.comp_def]
    simp only [applyWithin, TypeRef.bare, lookup?_bare, hpath]
    cases s.lookup? key with
    | some replacement => simp
    | none =>
      cases path.any (·.same key) with
      | true => rfl
      | false => exact congrArg (TypeRef.param key.bare name) hconstraints
  | .named _ args _ => by simp [applyWithin, TypeRef.bare, bareAll_applyAll s path args]
  | .array e _ => by simp [applyWithin, TypeRef.bare, bare_applyWithin s path e]
  | .pointer p _ => by simp [applyWithin, TypeRef.bare, bare_applyWithin s path p]
  | .byRef r => by simp [applyWithin, TypeRef.bare, bare_applyWithin s path r]
  | .nested d _ => by simp [applyWithin, TypeRef.bare, bare_applyWithin s path d]

theorem bareAll_applyAll (s : Substitution) (path : List ParamKey) : ∀ rs : List TypeRef,
    TypeRef.bareAll (s.applyAll path rs) = s.bare.applyAll (path.map ParamKey.bare) (TypeRef.bareAll rs)
  | [] => rfl
  | r :: rest => by
    simp [applyAll, TypeRef.bareAll, bare_applyWithin s path r, bareAll_applyAll s path rest]

end

theorem bare_apply (s : Substitution) (r : TypeRef) : (s.apply r).bare = s.bare.apply r.bare :=
  bare_applyWithin s [] r

theorem bare_apply_bare (s : Substitution) (r : TypeRef) : (s.apply r.bare).bare = (s.apply r).bare := by
  rw [bare_apply, bare_apply, TypeRef.bare_bare]

@[simp] theorem apply_empty (r : TypeRef) : empty.apply r = r :=
  applyWithin_empty [] r

end Substitution

end Exonym
