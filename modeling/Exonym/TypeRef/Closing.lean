import Exonym.TypeRef

/-!
# Closing references and moving parameters

A `Substitution` replaces parameters by references, as when the arguments of a generic reference are put in
for the parameters of its definition. A `Rehoming` gives parameters another owner and changes nothing else.
Both look parameters up by key, tokens aside.

Main statements:

* `Substitution.applyAll_eq`, `Rehoming.applyAll_eq`: the list companions are maps.
* `Substitution.lookup?_insert_self`: the last entry for a key is the one that counts.
* `Substitution.apply_of_isEmpty`: a substitution without entries changes nothing.
-/

namespace Exonym

/-- References to put in for parameters, the newest entry first. -/
structure Substitution where
  entries : List (ParamKey × TypeRef)
  deriving Repr, Inhabited

namespace Substitution

def empty : Substitution := ⟨[]⟩

def isEmpty (s : Substitution) : Bool := s.entries.isEmpty

/-- The substitution with one more entry, which takes the place of any earlier one for the key. -/
def insert (s : Substitution) (key : ParamKey) (replacement : TypeRef) : Substitution :=
  ⟨(key, replacement) :: s.entries⟩

/-- Puts the arguments in for the parameters of `owner`, position by position. -/
def forArguments (owner : SymbolId) (args : List TypeRef) : Substitution :=
  ⟨args.zipIdx.map fun (arg, position) => (⟨owner, UInt32.ofNat position⟩, arg)⟩

def lookup? (s : Substitution) (key : ParamKey) : Option TypeRef :=
  (s.entries.find? fun entry => entry.1.same key).map (·.2)

mutual

/-- Replaces every parameter that has an entry; what is put in is not looked at again. A parameter without an
entry stays, and its constraints are closed in the same way, except inside the constraints of the same parameter:
`path` holds the parameters inside whose constraints the walk is. -/
def applyWithin (s : Substitution) (path : List ParamKey) : TypeRef → TypeRef
  | .param key name constraints =>
    match s.lookup? key with
    | some replacement => replacement
    | none =>
      if path.any (·.same key) then .param key name constraints
      else .param key name (s.applyAll (key :: path) constraints)
  | .named target args isValueType => .named target (s.applyAll path args) isValueType
  | .array element rank => .array (s.applyWithin path element) rank
  | .pointer pointee depth => .pointer (s.applyWithin path pointee) depth
  | .byRef referenced => .byRef (s.applyWithin path referenced)
  | .nested declaring name => .nested (s.applyWithin path declaring) name

def applyAll (s : Substitution) (path : List ParamKey) : List TypeRef → List TypeRef
  | [] => []
  | r :: rest => s.applyWithin path r :: s.applyAll path rest

end

/-- The reference with every mapped parameter replaced. -/
def apply (s : Substitution) (r : TypeRef) : TypeRef :=
  s.applyWithin [] r

theorem applyAll_eq (s : Substitution) (path : List ParamKey) (rs : List TypeRef) :
    s.applyAll path rs = rs.map (s.applyWithin path) := by
  induction rs with
  | nil => rfl
  | cons r rest ih => simp [applyAll, ih]

@[simp] theorem lookup?_insert_self (s : Substitution) (key : ParamKey) (replacement : TypeRef) :
    (s.insert key replacement).lookup? key = some replacement := by
  simp [lookup?, insert, ParamKey.same]

mutual

theorem applyWithin_empty (path : List ParamKey) : ∀ r : TypeRef, empty.applyWithin path r = r
  | .param key _ cs => by
    have := applyAll_empty (key :: path) cs
    simp [applyWithin, lookup?, empty] at this ⊢
    simp [this]
  | .named _ args _ => by simp [applyWithin, applyAll_empty path args]
  | .array e _ => by simp [applyWithin, applyWithin_empty path e]
  | .pointer p _ => by simp [applyWithin, applyWithin_empty path p]
  | .byRef r => by simp [applyWithin, applyWithin_empty path r]
  | .nested d _ => by simp [applyWithin, applyWithin_empty path d]

theorem applyAll_empty (path : List ParamKey) : ∀ rs : List TypeRef, empty.applyAll path rs = rs
  | [] => rfl
  | r :: rest => by simp [applyAll, applyWithin_empty path r, applyAll_empty path rest]

end

theorem apply_of_isEmpty {s : Substitution} (h : s.isEmpty = true) (r : TypeRef) : s.apply r = r := by
  obtain ⟨entries⟩ := s
  obtain rfl : entries = [] := by simpa [isEmpty] using h
  exact applyWithin_empty [] r

end Substitution

/-- New owners for the parameters of old ones, the newest entry first. -/
structure Rehoming where
  moves : List (SymbolId × SymbolId)
  deriving Repr, Inhabited

namespace Rehoming

def empty : Rehoming := ⟨[]⟩

/-- The rehoming that also moves the parameters of `old`, in place of any earlier move of them. -/
def insert (m : Rehoming) (old new : SymbolId) : Rehoming :=
  ⟨(old, new) :: m.moves⟩

/-- The owner of what `owner` declared before. -/
def owner (m : Rehoming) (owner : SymbolId) : SymbolId :=
  ((m.moves.find? fun move => move.1.same owner).map (·.2)).getD owner

mutual

/-- Gives every parameter of a moved owner its new one, inside constraints too. -/
def apply (m : Rehoming) : TypeRef → TypeRef
  | .param key name constraints =>
    .param { key with owner := m.owner key.owner } name (m.applyAll constraints)
  | .named target args isValueType => .named target (m.applyAll args) isValueType
  | .array element rank => .array (m.apply element) rank
  | .pointer pointee depth => .pointer (m.apply pointee) depth
  | .byRef referenced => .byRef (m.apply referenced)
  | .nested declaring name => .nested (m.apply declaring) name

def applyAll (m : Rehoming) : List TypeRef → List TypeRef
  | [] => []
  | r :: rest => m.apply r :: m.applyAll rest

end

theorem applyAll_eq (m : Rehoming) (rs : List TypeRef) : m.applyAll rs = rs.map m.apply := by
  induction rs with
  | nil => rfl
  | cons r rest ih => simp [applyAll, ih]

end Rehoming

end Exonym
