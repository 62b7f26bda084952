import Exonym.Symbol
import Exonym.Text.CharClass

/-!
# The names that symbols ask for

Main statements:

* `identifier_wellFormed`: a base name is not empty, holds letters, digits, `_` and `$` only, and starts with no
  ASCII digit.
* `identifier_of_wellFormed`: a name that is well formed already is left alone.
-/

namespace Exonym

/-- Characters that may stand in an identifier. -/
def isIdentifierChar (c : Char) : Bool :=
  CharClass.isAlphanumeric c || c = '_' || c = '$'

/-- Names that can be written down in the target language. -/
def WellFormedName (name : List Char) : Prop :=
  name ≠ [] ∧ (∀ c ∈ name, isIdentifierChar c = true) ∧ ∀ c, name.head? = some c → c.isDigit = false

/-- The name with every character replaced that cannot stand in an identifier, and with an underscore in front
where it would be empty or start with a digit. -/
def identifierChars (name : List Char) : List Char :=
  match name.map fun c => if isIdentifierChar c then c else '_' with
  | [] => ['_']
  | c :: rest => if c.isDigit then '_' :: c :: rest else c :: rest

def identifier (name : String) : String :=
  .ofList (identifierChars name.toList)

/-- A type asks for its name without the namespace, so nested types have those around them in it. -/
def TypeSymbol.baseName (t : TypeSymbol) : String :=
  identifier t.id.simpleName

/-- A member asks for its own name; the name of an explicit implementation has the interface in front. -/
def MemberInfo.baseName (info : MemberInfo) : String :=
  identifier (if info.isExplicit then ((Cut.textLast? '.' info.name).map (·.2)).getD info.name else info.name)

theorem isIdentifierChar_underscore : isIdentifierChar '_' = true := by
  simp [isIdentifierChar]

theorem identifier_wellFormed (name : List Char) : WellFormedName (identifierChars name) := by
  have hall : ∀ c ∈ name.map (fun c => if isIdentifierChar c then c else '_'), isIdentifierChar c = true := by
    intro c hc
    obtain ⟨d, -, rfl⟩ := List.mem_map.1 hc
    split
    · assumption
    · exact isIdentifierChar_underscore
  unfold identifierChars WellFormedName
  split
  · simp [isIdentifierChar_underscore]
  · rename_i c rest h
    rw [h] at hall
    split <;> simp_all [isIdentifierChar_underscore]

theorem identifier_of_wellFormed {name : List Char} (h : WellFormedName name) :
    identifierChars name = name := by
  obtain ⟨hne, hall, hhead⟩ := h
  have hmap : name.map (fun c => if isIdentifierChar c then c else '_') = name := by
    conv => rhs; rw [← List.map_id name]
    exact List.map_congr_left fun c hc => by simp [hall c hc]
  unfold identifierChars
  rw [hmap]
  cases name with
  | nil => exact absurd rfl hne
  | cons c rest => simp [hhead c rfl]

end Exonym
