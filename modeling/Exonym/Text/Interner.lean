/-!
# Interned texts

An interner numbers texts in the order in which it first sees them.

Main statements:

* `Interner.get?_eq_some_iff`: a text has a number exactly when the number stands for it.
* `Interner.resolve?_intern`: the number that a text gets stands for it.
* `Interner.resolve?_intern_of_eq_some`: numbers given out before keep their texts.
-/

namespace Exonym

structure Interner where
  texts : List String
  nodup : texts.Nodup

namespace Interner

def empty : Interner := ⟨[], .nil⟩

instance : Inhabited Interner := ⟨empty⟩

def size (i : Interner) : Nat :=
  i.texts.length

/-- The number of a text that has one. -/
def get? (i : Interner) (text : String) : Option Nat :=
  i.texts.idxOf? text

/-- The text that a number stands for. -/
def resolve? (i : Interner) (number : Nat) : Option String :=
  i.texts[number]?

/-- The number of a text, which gets the next one if it has none. -/
def intern (i : Interner) (text : String) : Nat × Interner :=
  if h : text ∈ i.texts then (i.texts.idxOf text, i)
  else (i.size, ⟨i.texts ++ [text], List.nodup_append.2 ⟨i.nodup, by simp, fun a ha b hb => by grind⟩⟩)

theorem get?_eq_some_iff {i : Interner} {text : String} {number : Nat} :
    i.get? text = some number ↔ i.resolve? number = some text := by
  obtain ⟨texts, h⟩ := i
  unfold get? resolve?
  induction texts generalizing number with
  | nil => simp
  | cons t rest ih =>
    have ⟨ht, hrest⟩ := List.nodup_cons.1 h
    have := fun n => @ih n hrest
    by_cases he : t = text
    · subst he
      cases number with
      | zero => simp [List.idxOf?_cons]
      | succ n =>
        simp only [List.idxOf?_cons, beq_self_eq_true, if_true, List.getElem?_cons_succ]
        constructor
        · simp
        · intro hn
          exact absurd (List.mem_of_getElem? hn) ht
    · cases number <;> simp_all [List.idxOf?_cons]

theorem resolve?_intern (i : Interner) (text : String) :
    (i.intern text).2.resolve? (i.intern text).1 = some text := by
  unfold intern
  split
  · rename_i h
    simp [resolve?, List.idxOf_lt_length_of_mem h]
  · simp [resolve?, size]

theorem resolve?_intern_of_eq_some {i : Interner} {number : Nat} {known : String} (text : String)
    (h : i.resolve? number = some known) : (i.intern text).2.resolve? number = some known := by
  unfold intern
  split
  · exact h
  · simp only [resolve?] at h ⊢
    rw [List.getElem?_append_left (List.getElem?_eq_some_iff.1 h).1, h]

end Interner

end Exonym
