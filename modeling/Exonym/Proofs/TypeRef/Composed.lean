import Exonym.Proofs.TypeRef.Parameters
import Exonym.Sample.Gallery

/-!
# Closing in one step or in two

Where every parameter of a reference has an argument, closing the reference and then closing the result comes to the
same as closing the arguments first: nothing is left of the reference itself that a second substitution could change.
Constraints do not matter there, since they go with the parameters that are put in for. They do matter where nothing is
put in: a substitution looks into the constraints of the parameters that it keeps.

Main statements:

* `Substitution.builtFrom_applyWithin`: a closed reference has parameters only inside what was put in.
* `Substitution.applyWithin_of_occurrences`: what mentions no key of a substitution is not changed by it.
* `Substitution.closing_composes`: both steps of closing are one.
-/

namespace Exonym

namespace TypeRef

mutual

/-- The parameters that occur anywhere in a reference, inside constraints too. -/
def occurrences : TypeRef → List ParamKey
  | .named _ args _ => occurrencesAll args
  | .param key _ constraints => key :: occurrencesAll constraints
  | .array element _ => element.occurrences
  | .pointer pointee _ => pointee.occurrences
  | .byRef referenced => referenced.occurrences
  | .nested declaring _ => declaring.occurrences

def occurrencesAll : List TypeRef → List ParamKey
  | [] => []
  | r :: rest => r.occurrences ++ occurrencesAll rest

end

/-- The reference is put together from references with the property, and no parameter stands beside them. -/
inductive BuiltFrom (P : TypeRef → Prop) : TypeRef → Prop
  | part {r : TypeRef} (h : P r) : BuiltFrom P r
  | named (target : TypeName) {args : List TypeRef} (isValueType : Bool) (h : ∀ r ∈ args, BuiltFrom P r) :
    BuiltFrom P (.named target args isValueType)
  | array {element : TypeRef} (rank : UInt32) (h : BuiltFrom P element) : BuiltFrom P (.array element rank)
  | pointer {pointee : TypeRef} (depth : UInt32) (h : BuiltFrom P pointee) : BuiltFrom P (.pointer pointee depth)
  | byRef {referenced : TypeRef} (h : BuiltFrom P referenced) : BuiltFrom P (.byRef referenced)
  | nested {declaring : TypeRef} (name : String) (h : BuiltFrom P declaring) : BuiltFrom P (.nested declaring name)

theorem BuiltFrom.mono {P Q : TypeRef → Prop} {r : TypeRef} (hPQ : ∀ x, P x → Q x) (h : r.BuiltFrom P) :
    r.BuiltFrom Q := by
  induction h with
  | part h => exact .part (hPQ _ h)
  | named target v _ ih => exact .named target v ih
  | array rank _ ih => exact .array rank ih
  | pointer depth _ ih => exact .pointer depth ih
  | byRef _ ih => exact .byRef ih
  | nested name _ ih => exact .nested name ih

end TypeRef

namespace Substitution

open TypeRef

mutual

/-- Where every parameter is put in for, the rest of the reference has none. -/
theorem builtFrom_applyWithin {s : Substitution} {path : List ParamKey} : ∀ {r : TypeRef},
    (∀ k ∈ r.params, (s.lookup? k).isSome = true) →
      (s.applyWithin path r).BuiltFrom fun x => ∃ k ∈ r.params, s.lookup? k = some x
  | .param key name constraints, h => by
    obtain ⟨x, hx⟩ := Option.isSome_iff_exists.1 (h key (by simp [params]))
    rw [applyWithin, hx]
    exact .part ⟨key, by simp [params], hx⟩
  | .named target args v, h => .named target v (@builtFrom_applyAll s path args h)
  | .array e rank, h => .array rank (builtFrom_applyWithin (r := e) h)
  | .pointer p depth, h => .pointer depth (builtFrom_applyWithin (r := p) h)
  | .byRef r, h => .byRef (builtFrom_applyWithin (r := r) h)
  | .nested d name, h => .nested name (builtFrom_applyWithin (r := d) h)

theorem builtFrom_applyAll {s : Substitution} {path : List ParamKey} : ∀ {rs : List TypeRef},
    (∀ k ∈ paramsAll rs, (s.lookup? k).isSome = true) →
      ∀ x ∈ s.applyAll path rs, x.BuiltFrom fun x => ∃ k ∈ paramsAll rs, s.lookup? k = some x
  | [], _ => by simp [applyAll]
  | r :: rest, h => by
    have hr := @builtFrom_applyWithin s path r fun k hk => h k (List.mem_append_left _ hk)
    have hrest := @builtFrom_applyAll s path rest fun k hk => h k (List.mem_append_right _ hk)
    simp only [applyAll, List.forall_mem_cons, paramsAll]
    refine ⟨hr.mono ?_, fun x hx => (hrest x hx).mono ?_⟩
    · rintro _ ⟨k, hk, hx⟩
      exact ⟨k, List.mem_append_left _ hk, hx⟩
    · rintro _ ⟨k, hk, hx⟩
      exact ⟨k, List.mem_append_right _ hk, hx⟩

end

mutual

/-- Inside the constraints of a parameter that is kept there is nothing to change either, whether the walk goes there or
stops before them. -/
theorem applyWithin_of_occurrences {s : Substitution} (path : List ParamKey) : ∀ {r : TypeRef},
    (∀ k ∈ r.occurrences, s.lookup? k = none) → s.applyWithin path r = r
  | .param key name constraints, h => by
    obtain ⟨hkey, hconstraints⟩ := List.forall_mem_cons.1 h
    rw [applyWithin, hkey]
    simp [applyAll_of_occurrences (key :: path) hconstraints]
  | .named _ args _, h => by rw [applyWithin, @applyAll_of_occurrences s path args h]
  | .array e _, h => by rw [applyWithin, applyWithin_of_occurrences path (r := e) h]
  | .pointer p _, h => by rw [applyWithin, applyWithin_of_occurrences path (r := p) h]
  | .byRef r, h => by rw [applyWithin, applyWithin_of_occurrences path (r := r) h]
  | .nested d _, h => by rw [applyWithin, applyWithin_of_occurrences path (r := d) h]

theorem applyAll_of_occurrences {s : Substitution} (path : List ParamKey) : ∀ {rs : List TypeRef},
    (∀ k ∈ occurrencesAll rs, s.lookup? k = none) → s.applyAll path rs = rs
  | [], _ => rfl
  | r :: rest, h => by
    have hr := applyWithin_of_occurrences path (r := r) fun k hk => h k (List.mem_append_left _ hk)
    have hrest := @applyAll_of_occurrences s path rest fun k hk => h k (List.mem_append_right _ hk)
    rw [applyAll, hr, hrest]

end

/-- The parameters of the reference are those of `owner`, and there is an argument for each of them. What stands in
constraints of a parameter that is put in for need not be considered. -/
def Closes (owner : SymbolId) (args : List TypeRef) (r : TypeRef) : Prop :=
  ∀ k ∈ r.params, owner.same k.owner = true ∧ k.position.toNat < args.length

instance (owner : SymbolId) (args : List TypeRef) : DecidablePred (Closes owner args) := fun r =>
  inferInstanceAs (Decidable (∀ k ∈ r.params, _))

theorem Closes.lookup? {owner : SymbolId} {args : List TypeRef} {r : TypeRef} (h : Closes owner args r) {k : ParamKey}
    (hk : k ∈ r.params) : (forArguments owner args).lookup? k = args[k.position.toNat]? := by
  rw [lookup?_forArguments, if_pos (h k hk).1]

/-- Closing a reference all of whose parameters have arguments and then closing the result is closing the reference with
closed arguments, and what is closed has parameters only inside the arguments that were put in. A reference that mentions
no key of a substitution, not even in a constraint, is not changed by it. -/
theorem closing_composes (owner : SymbolId) (args : List TypeRef) (s : Substitution) (r : TypeRef) :
    (Closes owner args r →
      s.apply ((forArguments owner args).apply r) = (forArguments owner (args.map s.apply)).apply r ∧
      ((forArguments owner args).apply r).BuiltFrom fun x => ∃ k ∈ r.params, args[k.position.toNat]? = some x) ∧
    ((∀ k ∈ r.occurrences, s.lookup? k = none) → s.apply r = r) := by
  refine ⟨fun h => ⟨(applyWithin_forArguments_map s [] h).symm, ?_⟩, applyWithin_of_occurrences []⟩
  have hbuilt := @builtFrom_applyWithin (forArguments owner args) [] r fun k hk => by
    rw [h.lookup? hk, List.getElem?_eq_getElem (h k hk).2]
    rfl
  refine hbuilt.mono ?_
  rintro x ⟨k, hk, hx⟩
  exact ⟨k, hk, by rw [← h.lookup? hk, hx]⟩

/-- The owner of the parameters of a table. -/
def tableOwner : SymbolId :=
  .type ⟨"core", "System.Table`2"⟩

/-- The entries of a table, in which a constraint on the keys mentions the values. -/
def tableEntry : TypeRef :=
  .generic "core" "System" "Entry" [
    .param ⟨tableOwner, 0⟩ "K" [.generic "core" "System" "IComparable" [.param ⟨tableOwner, 1⟩ "V" []]],
    .array (.param ⟨tableOwner, 1⟩ "V" []) 1]

/-- The table is closed by arguments that have a parameter of their own, and that one is put in for afterwards. -/
theorem closing_composes_tableEntry :
    let args := [Gallery.system "String", Gallery.ofApp "IList" (Gallery.parameterOf "App.Cell`1")]
    let s := forArguments (.type ⟨"app", "App.Cell`1"⟩) [Gallery.system "Int32"]
    Closes tableOwner args tableEntry ∧
      (s.apply ((forArguments tableOwner args).apply tableEntry) =
          (forArguments tableOwner (args.map s.apply)).apply tableEntry ∧
        ((forArguments tableOwner args).apply tableEntry).BuiltFrom fun x =>
          ∃ k ∈ tableEntry.params, args[k.position.toNat]? = some x) ∧
      (∀ k ∈ tableEntry.occurrences, s.lookup? k = none) ∧ s.apply tableEntry = tableEntry := by
  intro args s
  have hcloses : Closes tableOwner args tableEntry := by decide +kernel
  have hnone : ∀ k ∈ tableEntry.occurrences, s.lookup? k = none := by decide +kernel
  have h := closing_composes tableOwner args s tableEntry
  exact ⟨hcloses, h.1 hcloses, hnone, h.2 hnone⟩

end Substitution

end Exonym
