import Exonym.Proofs.Ledger.Words
import Mathlib.Logic.Relation
import Mathlib.Order.Bounds.Defs

/-!
# Lengthening reserved names

A reserved name is lengthened in rounds. Each adds one underscore and is made because the name so far is reserved; the
rounds end where it is not. The words of the user's own may form chains of any length in which each word is the one
before it with an underscore more, but there are only finitely many words, so every chain ends.

Main statements:

* `ReservedWords.wellFounded_round`: from no name are there rounds without end.
* `ReservedWords.lengthen_eq_iff`, `ReservedWords.sanitize?_eq_some_iff`: rounds lead to one free name.
* `ReservedWords.exists_isLeast_padded`: a reserved name gets as few underscores as will do.
* `Ledger.naturalName_first_free`: what a natural name is, for any words.
-/

namespace Exonym

open Relation (ReflTransGen)

namespace ReservedWords

/-! ## Rounds -/

/-- One round: a reserved name gets an underscore more. -/
def Round (r : ReservedWords) (name next : String) : Prop :=
  r.contains name = true ∧ next = name.push '_'

variable {r : ReservedWords} {name : String}

theorem wellFounded_round (r : ReservedWords) : WellFounded fun next name => r.Round name next := by
  refine Subrelation.wf ?_ (measure fun name => (r.wordsFrom name).length).wf
  rintro next name ⟨hname, rfl⟩
  exact length_wordsFrom_push_lt hname

theorem rounds_lengthen (r : ReservedWords) (name : String) : ReflTransGen r.Round name (r.lengthen name) := by
  induction name using lengthen.induct r with
  | case1 name h ih =>
    rw [lengthen_of_reserved h]
    exact ih.head ⟨h, rfl⟩
  | case2 name h =>
    rw [Bool.not_eq_true] at h
    rw [lengthen_of_free h]

/-- A round makes no difference to where the rounds lead. -/
theorem lengthen_of_rounds {last : String} (h : ReflTransGen r.Round name last) : r.lengthen name = r.lengthen last := by
  induction h using ReflTransGen.head_induction_on with
  | refl => rfl
  | head hround _ ih =>
    obtain ⟨hreserved, rfl⟩ := hround
    rw [lengthen_of_reserved hreserved, ih]

theorem lengthen_eq_iff {last : String} :
    r.lengthen name = last ↔ ReflTransGen r.Round name last ∧ r.contains last = false := by
  constructor
  · rintro rfl
    exact ⟨r.rounds_lengthen name, r.contains_lengthen name⟩
  · rintro ⟨hrounds, hfree⟩
    rw [lengthen_of_rounds hrounds, lengthen_of_free hfree]

theorem sanitize?_eq_some_iff {safe : String} : r.sanitize? name = some safe ↔
    r.contains name = true ∧ ReflTransGen r.Round (name.push '_') safe ∧ r.contains safe = false := by
  rw [sanitize?, Option.ite_none_right_eq_some, Option.some_inj, lengthen_eq_iff]

theorem sanitize?_eq_none_iff : r.sanitize? name = none ↔ r.contains name = false := by
  rw [← Option.isNone_iff_eq_none, ← Option.not_isSome, sanitize?_isSome, Bool.not_eq_true']

/-! ## The number of underscores -/

/-- A reserved name gets as few underscores as will do, one at least. -/
theorem exists_isLeast_padded (h : r.contains name = true) :
    ∃ k ≤ (r.wordsFrom name).length, r.lengthen name = padded name k ∧
      IsLeast {k | 1 ≤ k ∧ r.contains (padded name k) = false} k := by
  obtain ⟨k, hk, heq, hall⟩ := r.exists_lengthen_eq_padded name
  have hfree : r.contains (padded name k) = false := heq ▸ r.contains_lengthen name
  have hpos : k ≠ 0 := by
    rintro rfl
    simp [padded_zero, h] at hfree
  refine ⟨k, hk, heq, ⟨Nat.one_le_iff_ne_zero.2 hpos, hfree⟩, ?_⟩
  rintro j ⟨-, hj⟩
  refine Nat.le_of_not_lt fun hlt => ?_
  simp [hall j hlt] at hj

end ReservedWords

namespace Ledger

/-- For any words besides those of the language: from no name are there rounds of lengthening without end, and what
replaces a name is the free name to which they lead, which would not be replaced again. A natural name is not reserved;
it is the styled base if that is not reserved, and otherwise the styled base with the fewest underscores, one at least,
that give a free name. Of these there are no more than there are words that begin with the styled base. -/
theorem naturalName_first_free (l : Ledger) (base : String) (kind : NameKind) :
    let r := l.reservedWords
    let styled := (l.settings.style kind).apply base
    let natural := l.naturalName base kind
    (WellFounded fun next name => r.Round name next) ∧
    (∀ name safe, r.sanitize? name = some safe ↔
      r.contains name = true ∧ ReflTransGen r.Round (name.push '_') safe ∧ r.contains safe = false) ∧
    (∀ name, r.sanitize? name = none ↔ r.contains name = false) ∧
    (∀ name, r.sanitize? ((r.sanitize? name).getD name) = none) ∧
    r.contains natural = false ∧ r.sanitize? natural = none ∧
    (r.contains styled = false → natural = styled) ∧
    (r.contains styled = true → ∃ k ≤ (r.wordsFrom styled).length, natural = ReservedWords.padded styled k ∧
      IsLeast {k | 1 ≤ k ∧ r.contains (ReservedWords.padded styled k) = false} k) := by
  intro r styled natural
  have hnatural : natural = r.lengthen styled := l.naturalName_eq_lengthen base kind
  have hfree : r.contains natural = false := l.not_reserved_naturalName base kind
  refine ⟨r.wellFounded_round, fun _ _ => ReservedWords.sanitize?_eq_some_iff,
    fun _ => ReservedWords.sanitize?_eq_none_iff, fun name => ?_, hfree, ReservedWords.sanitize?_eq_none_iff.2 hfree,
    fun hstyled => ?_, fun hstyled => ?_⟩
  · rw [ReservedWords.sanitize?_eq_none_iff, ReservedWords.getD_sanitize?]
    exact r.contains_lengthen name
  · rw [hnatural, ReservedWords.lengthen_of_free hstyled]
  · rw [hnatural]
    exact ReservedWords.exists_isLeast_padded hstyled

/-- With `Object` and `Object_` as words of the user's own, a type that is to be `Object` is named `Object__`. -/
theorem naturalName_first_free_object :
    let l := empty { NameSettings.default with typeStyle := .pascalCase, extraReservedWords := ["Object", "Object_"] }
    l.reservedWords.contains "Object" = true ∧ l.naturalName "object" .type = "Object__" ∧
      (∃ k ≤ (l.reservedWords.wordsFrom "Object").length, "Object__" = ReservedWords.padded "Object" k ∧
        IsLeast {k | 1 ≤ k ∧ l.reservedWords.contains (ReservedWords.padded "Object" k) = false} k) ∧
      l.reservedWords.contains "Widget" = false ∧ l.naturalName "widget" .type = "Widget" := by
  intro l
  have hobject : l.naturalName "object" .type = "Object__" := by decide +kernel
  have hreserved : l.reservedWords.contains "Object" = true := by decide +kernel
  have hfree : l.reservedWords.contains "Widget" = false := by decide +kernel
  obtain ⟨-, -, -, -, -, -, -, hleast⟩ := l.naturalName_first_free "object" .type
  obtain ⟨-, -, -, -, -, -, hsame, -⟩ := l.naturalName_first_free "widget" .type
  have hstyled : (l.settings.style .type).apply "object" = "Object" := by decide +kernel
  have hwidget : (l.settings.style .type).apply "widget" = "Widget" := by decide +kernel
  rw [hstyled, hobject] at hleast
  rw [hwidget] at hsame
  exact ⟨hreserved, hobject, hleast hreserved, hfree, hsame hfree⟩

end Ledger

end Exonym
