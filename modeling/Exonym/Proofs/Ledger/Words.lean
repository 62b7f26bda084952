import Exonym.Proofs.Ledger.Requests
import Exonym.Text.Digits

/-!
# Names that are no reserved words

With no words of the user's own, a name that a request is given is a reserved word only if the request asks for its name
as it is, or takes over the name of its overload group. A derived name is a word that was made safe, perhaps with
an interface or a number added to it, and no word of the language holds an underscore or a digit.

Main statements:

* `ReservedWords.not_contains_append`: a name with an underscore or a digit in it is not reserved.
* `Ledger.naturalName_eq_lengthen`: what a natural name is.
* `Ledger.not_reserved_naturalName`, `Ledger.not_reserved_of_variant`: it is not reserved, nor is any variant of it.
-/

namespace Exonym

namespace ReservedWords

/-- The words of the language are made of small letters. -/
theorem isLower_of_mem_languageWords :
    ∀ word ∈ languageWords, ∀ c ∈ word.toList, c.isLower = true := by
  have hall : (languageWords.all fun word => word.toList.all Char.isLower) = true := by decide +kernel
  intro word hword
  exact List.all_eq_true.1 (List.all_eq_true.1 hall word hword)

theorem not_contains_of_mem {name : String} {c : Char} (hc : c ∈ name.toList) (hlower : c.isLower = false) :
    (withExtra []).contains name = false := by
  rw [← Bool.not_eq_true]
  intro h
  have hmem : name ∈ languageWords := by simpa [withExtra, contains] using h
  simp [isLower_of_mem_languageWords name hmem c hc] at hlower

/-- A name that goes on, after something else, with a character that is no small letter. -/
theorem not_contains_append (front : String) {rest : String} {c : Char} (hc : c ∈ rest.toList)
    (hlower : c.isLower = false) : (withExtra []).contains (front ++ rest) = false := by
  refine not_contains_of_mem (c := c) ?_ hlower
  rw [String.toList_append]
  exact List.mem_append_right _ hc

theorem exists_digit_of_toString (n : Nat) : ∃ c ∈ (toString n).toList, c.isLower = false := by
  have hne : (toString n).toList ≠ [] := by simp [Nat.toList_repr, Nat.toDigits_ne_nil]
  obtain ⟨c, hc⟩ := List.exists_mem_of_ne_nil _ hne
  have hdigit : c.isDigit = true := Digits.isDigit_of_mem_toString hc
  refine ⟨c, hc, ?_⟩
  delta Char.isDigit at hdigit
  delta Char.isLower
  simp only [Bool.and_eq_true, decide_eq_true_eq, Bool.and_eq_false_iff, decide_eq_false_iff_not] at hdigit ⊢
  left
  intro hle
  have := UInt32.le_trans hle hdigit.2
  exact absurd this (by decide)

end ReservedWords

/-- The style of the names of types, or of members. -/
def NameSettings.style (settings : NameSettings) : NameKind → NameStyle
  | .type => settings.typeStyle
  | .member => settings.memberStyle

namespace Ledger

/-- A natural name is the styled base, lengthened as far as needed. -/
theorem naturalName_eq_lengthen (l : Ledger) (base : String) (kind : NameKind) :
    l.naturalName base kind = l.reservedWords.lengthen ((l.settings.style kind).apply base) := by
  rw [← ReservedWords.getD_sanitize?]
  unfold naturalName styled
  cases kind <;> simp only [NameSettings.style] <;> split <;> simp_all

theorem not_reserved_naturalName (l : Ledger) (base : String) (kind : NameKind) :
    l.reservedWords.contains (l.naturalName base kind) = false := by
  rw [naturalName_eq_lengthen]
  exact l.reservedWords.contains_lengthen _

/-- The candidate of a request that leaves its name to be derived. -/
theorem not_reserved_of_candidate {l : Ledger} {r : Request} (hverbatim : r.verbatim = false) :
    l.reservedWords.contains (l.candidate r).1 = false := by
  rw [candidate_of_not_verbatim hverbatim]
  exact l.not_reserved_naturalName _ _

theorem not_reserved_of_variant {l : Ledger} (hwords : l.settings.extraReservedWords = []) {r : Request}
    {base name : String} {strategy : Strategy} (hbase : l.reservedWords.contains base = false)
    (h : Variant r base name strategy) : l.reservedWords.contains name = false := by
  have hl : l.reservedWords = .withExtra [] := by rw [reservedWords, hwords]
  cases h with
  | plain => exact hbase
  | @qualified short hq =>
    rw [hl, String.append_assoc]
    refine ReservedWords.not_contains_append base (c := '_') ?_ (by decide)
    rw [String.toList_append]
    exact List.mem_append_left _ (by decide)
  | suffixed n =>
    obtain ⟨c, hc, hlower⟩ := ReservedWords.exists_digit_of_toString n
    rw [hl]
    exact ReservedWords.not_contains_append base hc hlower

end Ledger

end Exonym
