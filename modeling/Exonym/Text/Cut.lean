/-!
# Cutting a text at a separator

A text is cut at the first or at the last occurrence of one character, which is dropped.

Main statements:

* `Cut.first?_eq_some_iff`, `Cut.last?_eq_some_iff`: the parts are those that give the text back around
  the separator, and the part that must not hold the separator does not.
* `Cut.last?_eq_none_iff`: there is no cut exactly when the separator is absent.
* `Cut.eq_of_append`, `Cut.eq_of_append_last`: there is one first and one last separator.
-/

namespace Exonym.Cut

/-- The parts before and after the first `sep`. -/
def first? (sep : Char) : List Char → Option (List Char × List Char)
  | [] => none
  | c :: rest =>
    if c = sep then some ([], rest)
    else (first? sep rest).map fun parts => (c :: parts.1, parts.2)

/-- The parts before and after the last `sep`. -/
def last? (sep : Char) : List Char → Option (List Char × List Char)
  | [] => none
  | c :: rest =>
    match last? sep rest with
    | some (before, after) => some (c :: before, after)
    | none => if c = sep then some ([], rest) else none

theorem first?_eq_some_iff {sep : Char} {s before after : List Char} :
    first? sep s = some (before, after) ↔ s = before ++ sep :: after ∧ sep ∉ before := by
  induction s generalizing before with
  | nil => simp [first?]
  | cons c rest ih =>
    by_cases h : c = sep
    · subst h
      cases before with
      | nil => simp [first?, eq_comm]
      | cons b before => simp [first?]; intro hb; simp [hb]
    · cases before with
      | nil => simp [first?, h]
      | cons b before => simp [first?, h, ih]; grind

theorem last?_eq_none_iff {sep : Char} {s : List Char} : last? sep s = none ↔ sep ∉ s := by
  induction s with
  | nil => simp [last?]
  | cons c rest ih =>
    unfold last?
    cases hr : last? sep rest with
    | some parts => grind
    | none => grind

theorem last?_eq_some_iff {sep : Char} {s before after : List Char} :
    last? sep s = some (before, after) ↔ s = before ++ sep :: after ∧ sep ∉ after := by
  induction s generalizing before with
  | nil => simp [last?]
  | cons c rest ih =>
    unfold last?
    cases hr : last? sep rest with
    | some parts =>
      obtain ⟨b, a⟩ := parts
      have hb := (@ih b).1
      cases before with
      | nil => grind [last?_eq_none_iff]
      | cons x before => grind
    | none =>
      have hn := last?_eq_none_iff.1 hr
      cases before with
      | nil => grind
      | cons x before => grind

/-- A text has one first separator. -/
theorem eq_of_append {sep : Char} {a a' b b' : List Char} (h : a ++ sep :: b = a' ++ sep :: b') (ha : sep ∉ a)
    (ha' : sep ∉ a') : a = a' ∧ b = b' := by
  have hcut := first?_eq_some_iff.2 ⟨h, ha'⟩
  rw [first?_eq_some_iff.2 ⟨rfl, ha⟩, Option.some.injEq, Prod.mk.injEq] at hcut
  exact hcut

/-- A text has one last separator. -/
theorem eq_of_append_last {sep : Char} {a a' b b' : List Char} (h : a ++ sep :: b = a' ++ sep :: b') (hb : sep ∉ b)
    (hb' : sep ∉ b') : a = a' ∧ b = b' := by
  have hcut := last?_eq_some_iff.2 ⟨h, hb'⟩
  rw [last?_eq_some_iff.2 ⟨rfl, hb⟩, Option.some.injEq, Prod.mk.injEq] at hcut
  exact hcut

/-- The parts of a text before and after the first `sep`. -/
def textFirst? (sep : Char) (s : String) : Option (String × String) :=
  (first? sep s.toList).map fun parts => (.ofList parts.1, .ofList parts.2)

/-- The parts of a text before and after the last `sep`. -/
def textLast? (sep : Char) (s : String) : Option (String × String) :=
  (last? sep s.toList).map fun parts => (.ofList parts.1, .ofList parts.2)

end Exonym.Cut
