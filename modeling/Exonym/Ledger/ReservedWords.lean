/-!
# Reserved words

Words that the target language keeps for itself, and any number of words that the user adds. A reserved name is
made usable by underscores at its end, as few as are needed.

Nobody counts the underscores while they are added, and the user's words may be such that many are needed. But a name
that is reserved is one of the words that begin with it, and none of those that begin with the name and an underscore.

Main statements:

* `ReservedWords.length_wordsFrom_push_lt`: an underscore more leaves fewer words that begin with the name.
* `ReservedWords.sanitize?_isSome`: exactly the reserved words are changed.
* `ReservedWords.contains_lengthen`, `ReservedWords.exists_lengthen_eq_padded`: a free name is reached, the first.
-/

namespace Exonym

/-- Keywords, and words with a meaning in some contexts, that cannot name a declaration. -/
def languageWords : List String := [
  "abstract", "any", "arguments", "as", "async", "await", "bigint", "boolean", "break", "case", "catch",
  "class", "const", "constructor", "continue", "debugger", "declare", "default", "delete", "do", "else",
  "enum", "eval", "export", "extends", "false", "finally", "for", "from", "function", "get", "if",
  "implements", "import", "in", "infer", "instanceof", "interface", "is", "keyof", "let", "module",
  "namespace", "never", "new", "null", "number", "object", "of", "package", "private", "protected", "public",
  "readonly", "require", "return", "set", "static", "string", "super", "switch", "symbol", "this", "throw",
  "true", "try", "type", "typeof", "undefined", "unique", "unknown", "var", "void", "while", "with", "yield"]

structure ReservedWords where
  words : List String
  deriving Repr

namespace ReservedWords

/-- The language's words and some more. -/
def withExtra (extra : List String) : ReservedWords :=
  ⟨languageWords ++ extra⟩

def contains (r : ReservedWords) (name : String) : Bool :=
  r.words.contains name

/-- The name with `k` underscores at its end. -/
def padded (name : String) (k : Nat) : String :=
  name ++ .ofList (.replicate k '_')

theorem padded_zero (name : String) : padded name 0 = name :=
  String.append_empty

theorem padded_push (name : String) (k : Nat) : padded (name.push '_') k = padded name (k + 1) := by
  rw [← String.toList_inj]
  simp [padded, List.replicate_succ]

/-- The words that begin with the name. If it is reserved, it is one of them itself. -/
def wordsFrom (r : ReservedWords) (name : String) : List String :=
  r.words.filter fun word => name.toList.isPrefixOf word.toList

theorem mem_wordsFrom {r : ReservedWords} {name word : String} :
    word ∈ r.wordsFrom name ↔ word ∈ r.words ∧ name.toList <+: word.toList := by
  simp [wordsFrom]

/-- The words that begin with a longer name are among those that begin with the name. -/
theorem wordsFrom_push (r : ReservedWords) (name : String) (c : Char) : r.wordsFrom (name.push c) =
    (r.wordsFrom name).filter fun word => (name.push c).toList.isPrefixOf word.toList := by
  unfold wordsFrom
  rw [List.filter_filter]
  refine List.filter_congr fun word _ => ?_
  rw [Bool.eq_iff_iff, Bool.and_eq_true, List.isPrefixOf_iff_prefix, List.isPrefixOf_iff_prefix, String.toList_push]
  exact ⟨fun h => ⟨h, (List.prefix_append _ _).trans h⟩, And.left⟩

theorem length_wordsFrom_push_lt {r : ReservedWords} {name : String} (h : r.contains name = true) :
    (r.wordsFrom (name.push '_')).length < (r.wordsFrom name).length := by
  rw [wordsFrom_push, List.length_filter_lt_length_iff_exists]
  -- the name itself is lost
  refine ⟨name, mem_wordsFrom.2 ⟨by simpa [contains] using h, List.prefix_rfl⟩, fun hpush => ?_⟩
  have hle := (List.isPrefixOf_iff_prefix.1 hpush).length_le
  rw [String.toList_push, List.length_append, List.length_singleton] at hle
  omega

/-- The name with underscores added one by one for as long as it is reserved. -/
def lengthen (r : ReservedWords) (name : String) : String :=
  if _h : r.contains name then r.lengthen (name.push '_') else name
termination_by (r.wordsFrom name).length
decreasing_by exact length_wordsFrom_push_lt _h

/-- A name to use in place of a reserved one; none for a name that is not reserved. -/
def sanitize? (r : ReservedWords) (name : String) : Option String :=
  if r.contains name then some (r.lengthen (name.push '_')) else none

theorem sanitize?_isSome (r : ReservedWords) (name : String) :
    (r.sanitize? name).isSome = r.contains name := by
  unfold sanitize?
  split <;> simp_all

theorem lengthen_of_reserved {r : ReservedWords} {name : String} (h : r.contains name = true) :
    r.lengthen name = r.lengthen (name.push '_') := by
  rw [lengthen, dif_pos h]

theorem lengthen_of_free {r : ReservedWords} {name : String} (h : r.contains name = false) :
    r.lengthen name = name := by
  rw [lengthen, dif_neg (by simp [h])]

theorem contains_lengthen (r : ReservedWords) (name : String) : r.contains (r.lengthen name) = false := by
  induction name using lengthen.induct r with
  | case1 name h ih => rwa [lengthen_of_reserved h]
  | case2 name h =>
    rw [Bool.not_eq_true] at h
    rwa [lengthen_of_free h]

/-- The first free padding is reached, and no more underscores are needed than there are words that begin with the
name. -/
theorem exists_lengthen_eq_padded (r : ReservedWords) (name : String) :
    ∃ k ≤ (r.wordsFrom name).length, r.lengthen name = padded name k ∧
      ∀ j < k, r.contains (padded name j) = true := by
  induction name using lengthen.induct r with
  | case1 name h ih =>
    obtain ⟨k, hk, heq, hall⟩ := ih
    refine ⟨k + 1, Nat.lt_of_le_of_lt hk (length_wordsFrom_push_lt h), ?_, fun j hj => ?_⟩
    · rw [lengthen_of_reserved h, heq, padded_push]
    · cases j with
      | zero => rwa [padded_zero]
      | succ j =>
        rw [← padded_push]
        exact hall j (Nat.lt_of_succ_lt_succ hj)
  | case2 name h =>
    rw [Bool.not_eq_true] at h
    exact ⟨0, Nat.zero_le _, by rw [lengthen_of_free h, padded_zero], fun j hj => absurd hj (Nat.not_lt_zero j)⟩

/-- What is used in place of a name is the name, lengthened as far as needed. -/
theorem getD_sanitize? (r : ReservedWords) (name : String) : (r.sanitize? name).getD name = r.lengthen name := by
  unfold sanitize?
  split
  · rename_i h
    exact (lengthen_of_reserved h).symm
  · rename_i h
    rw [Bool.not_eq_true] at h
    exact (lengthen_of_free h).symm

end ReservedWords

end Exonym
