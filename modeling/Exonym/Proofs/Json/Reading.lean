import Exonym.Proofs.Json.Edits
import Exonym.Proofs.Json.Scanning

/-!
# Reading by a shape as it comes

A text that is a value, and one of the shape expected, is read as that value of the shape, although it is read as it
comes: no value is seen as a whole but that of a tagged record.

Main statements:

* `Shape.read_of_tree`: what is read of a value from the text is what is read of its tree.
* `Shape.readText_of_read?`: the same of whole texts.
-/

namespace Exonym.Shape

open Scan

variable {α : Type} {root shape : Shape} {s rest : List Char} {t : Tree} {j : Json} {bound depth : Nat}

/-! ## Values that are no containers -/

theorem simple_of_plain (h : Plain s rest t) {accept : Tree → Option α} {a : α} (ha : accept t = some a) :
    simple accept s = .ok (a, rest) := by
  obtain ⟨c, tail, hs, hc⟩ := h.peek_eq_ok
  have hscalar := h.of_blanks.scalar_eq_ok
  rw [hs] at hscalar
  rw [simple, bind_of_ok (peek_of_dropWhile hs), hc]
  refine (bind_of_ok hscalar).trans ?_
  rw [ha]
  rfl

theorem simple_of_tree (h : tree bound depth s = .ok (t, rest)) (hitems : ∀ items, t ≠ .array items)
    (hes : ∀ es, t ≠ .object es) {accept : Tree → Option α} {a : α} (ha : accept t = some a) :
    simple accept s = .ok (a, rest) := by
  obtain hplain | ⟨_, _, _, ⟨items, ht, _⟩ | ⟨es, ht, _⟩⟩ := tree_cases h
  · exact simple_of_plain hplain ha
  · exact absurd ht (hitems items)
  · exact absurd ht (hes es)

theorem ofTree?_untie {m : Manner} (h : ofTree? root m shape t = some j) :
    ofTree? root m (shape.untie root) t = some j := by
  cases shape with
  | knot =>
    cases t with
    | array items => rwa [ofTree?_knot_array] at h
    | object es => rwa [ofTree?_knot_object] at h
    | _ => simp [ofTree?] at h
  | _ => exact h

theorem Coherent.untie (hshape : Coherent root shape) (hroot : Coherent root root) :
    Coherent root (shape.untie root) := by
  cases shape with
  | knot => exact hroot
  | _ => exact hshape

theorem eq_knot_of_untie (h : shape.untie root = .knot) : root = .knot := by
  cases shape with
  | knot => exact h
  | _ => cases h

theorem readWord_of_plain (h : Plain s rest t) {words : List String} {cases : List (String × Shape)}
    {forms : List (String × List (RecordField Shape))} (hj : ofTree? root .whole (.variant words cases forms) t = some j) :
    readWord words s = .ok (j, rest) := by
  cases h with
  | text start h =>
    simp only [ofTree?, Option.ite_none_right_eq_some, Option.some.injEq] at hj
    obtain ⟨hword, rfl⟩ := hj
    rw [readWord, bind_of_ok (peek_of_dropWhile start), if_pos rfl, bind_of_ok h, if_pos hword]
    rfl
  | null | yes | no => simp [ofTree?] at hj
  | number start hc h value => obtain ⟨k, rfl⟩ | rfl := value?_cases value <;> simp [ofTree?] at hj

theorem readNode_of_plain (h : Plain s rest t) (hj : ofTree? root .whole shape t = some j) (inner : Option Inner) :
    readNode bound root inner shape s = .ok (j, rest) := by
  obtain ⟨c, tail, hs, hc⟩ := h.peek_eq_ok
  have hplain := h.of_blanks
  have hj := ofTree?_untie hj
  rw [hs] at hplain
  rw [readNode, bind_of_ok (peek_of_dropWhile hs), hc]
  cases hshape : shape.untie root with
  | variant words cases forms =>
    rw [hshape] at hj
    exact readWord_of_plain hplain hj
  | _ =>
    rw [hshape] at hj
    exact simple_of_plain hplain hj

/-! ## Inside a container -/

/-- In values that are read with so many levels of containers left, the reader sees what is in their trees. -/
def Agrees (root : Shape) (bound depth : Nat) (value : Shape → Scan Json) : Prop :=
  ∀ ⦃shape⦄, Coherent root shape → ∀ ⦃s t rest j⦄, s.length < bound → tree bound depth s = .ok (t, rest) →
    ofTree? root .whole shape t = some j → value shape s = .ok (j, rest)

/-- What an entry of a record adds to what was found. -/
def found? (root : Shape) (fields : List (RecordField Shape)) (strict : Bool) (found : List (String × Json))
    (e : String × Tree) : Option (List (String × Json)) :=
  match fields.find? (·.name = e.1) with
  | none => if strict then none else some found
  | some f => if found.any (·.1 = e.1) then none else (fieldOfTree? root .whole f e.2).map fun j => (e.1, j) :: found

/-- What an entry of a dictionary adds to what was found. -/
def texts? (root : Shape) (found : List (String × Json)) (e : String × Tree) : Option (List (String × Json)) :=
  (ofTree? root .whole .text e.2).map fun j => (e.1, j) :: found

/-- What an entry of a tagged record adds to its form and the other entries. -/
def sorted? (tag : String) (forms : List (String × α)) (state : Option (String × α) × List (String × Tree))
    (e : String × Tree) : Option (Option (String × α) × List (String × Tree)) :=
  if e.1 = tag then
    if state.1.isSome then none else (Manner.whole.form? forms e.2).map fun form => (some form, state.2)
  else some (state.1, e :: state.2)

@[simp] theorem form?_eq_some_iff {forms : List (String × α)} {form : String × α} :
    Manner.whole.form? forms t = some form ↔ ∃ word, t = .text word ∧ forms.find? (·.1 = word) = some form := by
  cases t <;> simp [Manner.form?]

theorem orMismatch_some (a : α) (s : List Char) : orMismatch (some a) s = .ok (a, s) := rfl

theorem taggedEntry_eq_ok {value : Shape → Scan Json} {tag : String} {forms : List (String × α)} {s₁ s₂ s₃ : List Char}
    {e : String × Tree} {state state' : Option (String × α) × List (String × Tree)}
    (hcolon : s₁.dropWhile isBlank = ':' :: s₂) (he : tree bound depth s₂ = .ok (e.2, s₃))
    (hstate : sorted? tag forms state e = some state') :
    (Inner.mk value (tree bound depth)).taggedEntry tag forms state e.1 s₁ = .ok (state', s₃) := by
  rw [sorted?] at hstate
  rw [Inner.taggedEntry]
  split at hstate
  · rename_i htag
    simp only [Option.ite_none_left_eq_some] at hstate
    obtain ⟨hnew, hmap⟩ := hstate
    obtain ⟨form, hform, rfl⟩ := Option.map_eq_some_iff.1 hmap
    obtain ⟨word, hword, -⟩ := form?_eq_some_iff.1 hform
    have hsimple := simple_of_tree he (by simp [hword]) (by simp [hword]) hform
    rw [if_pos htag, if_neg hnew]
    refine (bind_of_ok (take_of_dropWhile hcolon)).trans ?_
    rw [bind_of_ok hsimple]
    rfl
  · rename_i htag
    cases hstate
    rw [if_neg htag, bind_of_ok (take_of_dropWhile hcolon), bind_of_ok he]
    rfl

/-! ### What is found among the entries -/

theorem foldlM_found? {fields : List (RecordField Shape)} {strict : Bool} {seen : List String}
    {es : List (String × Tree)} {js : List (String × Json)} (found : List (String × Json)) (hseen : seen = found.map (·.1))
    (h : ofEntries? root .whole fields strict seen es = some js) :
    es.foldlM (found? root fields strict) found = some (js.reverse ++ found) := by
  induction es generalizing seen found js with
  | nil =>
    cases h
    rfl
  | cons e rest ih =>
    obtain ⟨key, t⟩ := e
    rw [ofEntries?_cons] at h
    rw [List.foldlM_cons, found?]
    cases hfind : fields.find? (·.name = key) with
    | none =>
      simp only [hfind, Option.ite_none_left_eq_some] at h
      simp only [if_neg h.1]
      exact ih found hseen h.2
    | some f =>
      simp only [hfind, Option.ite_none_left_eq_some] at h
      obtain ⟨hnew, hread⟩ := h
      obtain ⟨j, hj, hmap⟩ := Option.bind_eq_some_iff.1 hread
      obtain ⟨js, hrest, rfl⟩ := Option.map_eq_some_iff.1 hmap
      have hany : ¬found.any (·.1 = key) = true := by
        simpa [hseen] using hnew
      simp only [if_neg hany, hj, Option.map_some, Option.bind_eq_bind, Option.bind_some]
      rw [ih ((key, j) :: found) (by simp [hseen]) hrest]
      simp

theorem complete?_reverse {fields : List (RecordField Shape)} {js : List (String × Json)} (hkeys : (js.map (·.1)).Nodup) :
    complete? fields js.reverse = complete? fields js := by
  refine complete?_congr fun f _ => ?_
  have hkeys' : (js.reverse.map (·.1)).Nodup := by rwa [List.map_reverse, List.nodup_reverse]
  by_cases hfound : ∃ e ∈ js, e.1 = f.name
  · obtain ⟨e, he, hname⟩ := hfound
    rw [held_of_mem hkeys he hname, held_of_mem hkeys' (List.mem_reverse.2 he) hname]
  · have hnone : ∀ es : List (String × Json), (∀ e ∈ es, e ∈ js) → es.find? (·.1 = f.name) = none := fun es hes =>
      List.find?_eq_none.2 fun e he hname => hfound ⟨e, hes e he, of_decide_eq_true hname⟩
    rw [held, held, hnone js (fun _ he => he), hnone js.reverse fun _ he => List.mem_reverse.1 he]

theorem foldlM_sorted?_of_untagged {tag : String} {forms : List (String × α)} {form : Option (String × α)}
    {es : List (String × Tree)} (found : List (String × Tree)) (h : es.filter (·.1 = tag) = []) :
    es.foldlM (sorted? tag forms) (form, found) = some (form, (es.filter (·.1 ≠ tag)).reverse ++ found) := by
  induction es generalizing found with
  | nil => rfl
  | cons e rest ih =>
    have he : e.1 ≠ tag := by simpa using List.filter_eq_nil_iff.1 h e List.mem_cons_self
    rw [List.filter_cons_of_neg (by simpa using he)] at h
    rw [List.foldlM_cons, sorted?, if_neg he, List.filter_cons_of_pos (by simpa using he)]
    exact (ih _ h).trans (by simp)

theorem foldlM_sorted? {tag key : String} {forms : List (String × α)} {form : String × α}
    {es : List (String × Tree)} (found : List (String × Tree)) (h : es.filter (·.1 = tag) = [(key, t)])
    (hform : Manner.whole.form? forms t = some form) :
    es.foldlM (sorted? tag forms) (none, found) = some (some form, (es.filter (·.1 ≠ tag)).reverse ++ found) := by
  induction es generalizing found with
  | nil => cases h
  | cons e rest ih =>
    rw [List.foldlM_cons, sorted?]
    by_cases he : e.1 = tag
    · rw [List.filter_cons_of_pos (by simpa using he)] at h
      obtain ⟨rfl, hrest⟩ := List.cons.inj h
      rw [if_pos he, hform, List.filter_cons_of_neg (by simpa using he)]
      exact foldlM_sorted?_of_untagged _ hrest
    · rw [List.filter_cons_of_neg (by simpa using he)] at h
      rw [if_neg he, List.filter_cons_of_pos (by simpa using he)]
      exact (ih _ h).trans (by simp)

theorem ofEntries?_filter {m : Manner} {fields : List (RecordField Shape)} {tag : String}
    (htag : tag ∉ fields.map (·.name)) (seen : List String) (es : List (String × Tree)) :
    ofEntries? root m fields false seen (es.filter (·.1 ≠ tag)) = ofEntries? root m fields false seen es := by
  induction es generalizing seen with
  | nil => rfl
  | cons e rest ih =>
    obtain ⟨key, t⟩ := e
    by_cases hkey : key = tag
    · rw [List.filter_cons_of_neg (by simpa using hkey), ofEntries?_cons, hkey, find?_eq_none_of_not_mem htag]
      simpa using ih seen
    · rw [List.filter_cons_of_pos (by simpa using hkey), ofEntries?_cons, ofEntries?_cons]
      cases fields.find? (·.name = key) with
      | none => simpa using ih seen
      | some f => simp only [ih]

theorem foldlM_texts? {es : List (String × Tree)} {js : List (String × Json)} (found : List (String × Json))
    (h : ofDictionary? root .whole es = some js) : es.foldlM (texts? root) found = some (js.reverse ++ found) := by
  induction es generalizing found js with
  | nil =>
    cases h
    rfl
  | cons e rest ih =>
    simp only [ofDictionary?, Option.bind_eq_bind, Option.bind_eq_some_iff] at h
    obtain ⟨j, hj, js, hrest, heq⟩ := h
    cases heq
    rw [List.foldlM_cons, texts?, hj]
    exact (ih _ hrest).trans (by simp)

theorem entries_tagged {value : Shape → Scan Json} {tag key : String} {forms : List (String × α)} {form : String × α}
    {es : List (String × Tree)} (hrun : Run '\x7d' (keyed (tree bound depth)) true s es rest) (hbound : es.length < bound)
    (htags : es.filter (·.1 = tag) = [(key, t)]) (hform : Manner.whole.form? forms t = some form) :
    entries ((Inner.mk value (tree bound depth)).taggedEntry tag forms) true (none, []) bound s =
      .ok ((some form, (es.filter (·.1 ≠ tag)).reverse), rest) := by
  have hfold := foldlM_sorted? [] htags hform
  rw [List.append_nil] at hfold
  exact hrun.entries_eq_ok (tree_takes _ _) (sorted? tag forms) s.length.lt_succ_self (fun _ => taggedEntry_eq_ok) hfold
    hbound

/-! ### Tagged records by their tags -/

section Tags

variable {tag : String} {forms : List (String × List (RecordField Shape))}

/-- Of a tagged record in brackets the first item tells the form, and the others are the fields. -/
theorem exists_form_of_array {ts : List Tree} (hj : ofTree? root .whole (.tagged tag forms) (.array (t :: ts)) = some j) :
    ∃ word fields js, Manner.whole.form? forms t = some (word, fields) ∧ ofPositions? root .part fields ts = some js ∧
      j = .object ((tag, .text word) :: js) := by
  replace hj : ofTaggedArray? root .whole tag forms (t :: ts) = some j := hj
  simp only [ofTaggedArray?, Option.bind_eq_bind, Option.bind_eq_some_iff] at hj
  obtain ⟨⟨word, fields⟩, hform, js, hjs, heq⟩ := hj
  exact ⟨word, fields, js, hform, hjs, (Option.some.inj heq).symm⟩

/-- Of a tagged record in braces the one entry with the tag tells the form, and the others are the fields. -/
theorem exists_form_of_object {es : List (String × Tree)} (hshape : Coherent root (.tagged tag forms))
    (hj : ofTree? root .whole (.tagged tag forms) (.object es) = some j) :
    ∃ key t word fields js, es.filter (·.1 = tag) = [(key, t)] ∧ Manner.whole.form? forms t = some (word, fields) ∧
      (ofEntries? root .part fields false [] (es.filter (·.1 ≠ tag))).bind (complete? fields) = some js ∧
      j = .object ((tag, .text word) :: js) := by
  simp only [ofTree?, Shape.untie] at hj
  split at hj
  · rename_i key t htags
    simp only [Option.bind_eq_bind, Option.bind_eq_some_iff] at hj
    obtain ⟨⟨word, fields⟩, hform, found, hfound, hcomplete⟩ := hj
    obtain ⟨js, hjs, rfl⟩ := Option.map_eq_some_iff.1 hcomplete
    obtain ⟨_, -, hfind⟩ := form?_eq_some_iff.1 hform
    -- the tag is no field of a form, so its entry may be left out
    have htag := (coherent_tagged_iff.1 hshape).2.1 _ (List.mem_of_find?_eq_some hfind)
    refine ⟨key, t, word, fields, js, htags, hform, ?_, rfl⟩
    rw [ofEntries?_filter htag, hfound, Option.bind_some, hjs]
  · cases hj

end Tags

/-! ### Variants by their names -/

section Variants

variable {words : List String} {cases : List (String × Shape)} {forms : List (String × List (RecordField Shape))}
  {key : String}

theorem null_of_case (hword : words.contains key = true)
    (hj : ofCase? root .whole words cases forms [(key, t)] = some j) : t = .null ∧ j = .text key := by
  simp only [ofCase?, if_pos hword, Option.ite_none_right_eq_some, Option.some.injEq] at hj
  obtain ⟨hnothing, rfl⟩ := hj
  unfold Manner.isNothing at hnothing
  split at hnothing <;> simp_all

/-- A variant that is no word is read by one shape. -/
theorem exists_shape_of_case (hshape : Coherent root (.variant words cases forms)) (hword : ¬words.contains key = true)
    (hj : ofCase? root .whole words cases forms [(key, t)] = some j) :
    ∃ shape inner, ((cases.find? (·.1 = key)).map (·.2)).or
        ((forms.find? (·.1 = key)).map fun form => .record form.2 false) = some shape ∧
      Coherent root shape ∧ ofTree? root .whole shape t = some inner ∧ j = .object [(key, inner)] := by
  obtain ⟨-, hcases, hforms⟩ := coherent_variant_iff.1 hshape
  rw [ofCase?, if_neg hword] at hj
  cases hcase : cases.find? (·.1 = key) with
  | some c =>
    simp only [hcase] at hj
    obtain ⟨inner, hinner, rfl⟩ := Option.map_eq_some_iff.1 hj
    exact ⟨c.2, inner, rfl, hcases c (List.mem_of_find?_eq_some hcase), hinner, rfl⟩
  | none =>
    cases hform : forms.find? (·.1 = key) with
    | some form =>
      simp only [hcase, hform, Option.ite_none_right_eq_some] at hj
      obtain ⟨inner, hinner, rfl⟩ := Option.map_eq_some_iff.1 hj.2
      exact ⟨.record form.2 false, inner, rfl, hforms form (List.mem_of_find?_eq_some hform), hinner, rfl⟩
    | none => simp [hcase, hform] at hj

end Variants

/-! ### Items and entries -/

section Containers

variable {value : Shape → Scan Json} (h : Agrees root bound depth value) {fields : List (RecordField Shape)}
  {strict first : Bool}

include h

theorem Agrees.field {f : RecordField Shape} (hf : Coherent root f.shape) (hs : s.length < bound)
    (ht : tree bound depth s = .ok (t, rest)) (hj : fieldOfTree? root .whole f t = some j) :
    (Inner.mk value (tree bound depth)).field f s = .ok (j, rest) := by
  have hpeek : peek? s = .ok ((s.dropWhile isBlank).head?, s.dropWhile isBlank) := rfl
  rw [Inner.field, bind_of_ok hpeek]
  by_cases hnull : t = .null
  · subst hnull
    obtain hplain | ⟨_, _, _, ⟨_, ht, _⟩ | ⟨_, ht, _⟩⟩ := tree_cases ht
    · obtain ⟨tail, hs, hword⟩ := hplain.word_of_null
      cases hf : f.nullable with
      | false => simp [fieldOfTree?, hf, ofTree?] at hj
      | true =>
        simp only [fieldOfTree?, hf, Bool.and_self, if_true] at hj
        cases hj
        rw [hs]
        exact bind_of_ok hword
    · cases ht
    · cases ht
  · have hread : ofTree? root .whole f.shape t = some j := by
      cases t <;> simp_all [fieldOfTree?]
    have hother := head?_ne_of_tree ht hnull
    rw [if_neg (by simp [hother])]
    refine h hf ((List.length_dropWhile_le _ _).trans_lt hs) ?_ hread
    rwa [tree_passesBlanks]

theorem Agrees.items {ts : List Tree} (hrun : Run ']' (tree bound depth) first s ts rest) (hshape : Coherent root shape)
    (hs : s.length < bound) {js : List Json} (hjs : ofItems? root .whole shape ts = some js) :
    Run ']' (value shape) first s js rest ∧ js.length = ts.length := by
  induction hrun generalizing js with
  | close hclosing =>
    cases hjs
    exact ⟨.close hclosing, rfl⟩
  | next more head later ih =>
    simp only [ofItems?, Option.bind_eq_bind, Option.bind_eq_some_iff] at hjs
    obtain ⟨j, hj, js, hjs, heq⟩ := hjs
    cases heq
    have := length_le_of_goesOn more
    have := tree_takes _ _ head
    obtain ⟨hrun, hlength⟩ := ih (by omega) hjs
    exact ⟨.next more (h hshape (by omega) head hj) hrun, by simp [hlength]⟩

theorem Agrees.positions {ts : List Tree} (hrun : Run ']' (tree bound depth) first s ts rest)
    (hfields : ∀ f ∈ fields, Coherent root f.shape) (hs : s.length < bound) {js : List (String × Json)}
    (hjs : ofPositions? root .whole fields ts = some js) :
    (Inner.mk value (tree bound depth)).positions first fields s = .ok (js, rest) := by
  induction fields generalizing first s ts js with
  | nil =>
    cases hrun with
    | close hclosing =>
      cases hjs
      exact bind_of_ok (take_of_dropWhile hclosing)
    | next => simp [ofPositions?] at hjs
  | cons f fields ih =>
    obtain ⟨hf, hfields⟩ := List.forall_mem_cons.1 hfields
    rw [Inner.positions]
    cases hrun with
    | close hclosing =>
      rw [ofPositions?] at hjs
      rw [bind_of_ok (goesOn_of_closing hclosing), if_neg Bool.false_ne_true, hjs, bind_of_ok (orMismatch_some _ _)]
      exact bind_of_ok (advance_of_dropWhile (dropWhile_cons hclosing))
    | next more head later =>
      rw [ofPositions?_cons] at hjs
      obtain ⟨j, hj, hmap⟩ := Option.bind_eq_some_iff.1 hjs
      obtain ⟨js, hlater, rfl⟩ := Option.map_eq_some_iff.1 hmap
      have := length_le_of_goesOn more
      have := tree_takes _ _ head
      rw [bind_of_ok more, if_pos rfl, bind_of_ok (h.field hf (by omega) head hj),
        bind_of_ok (ih later hfields (by omega) hlater)]
      rfl

theorem Agrees.entry (hfields : ∀ f ∈ fields, Coherent root f.shape) {s₁ s₂ s₃ : List Char} {e : String × Tree}
    {found found' : List (String × Json)} (hs : s₂.length < bound) (hcolon : s₁.dropWhile isBlank = ':' :: s₂)
    (he : tree bound depth s₂ = .ok (e.2, s₃)) (hfound : found? root fields strict found e = some found') :
    (Inner.mk value (tree bound depth)).entry bound fields strict found e.1 s₁ = .ok (found', s₃) := by
  rw [found?] at hfound
  rw [Inner.entry]
  cases hfind : fields.find? (·.name = e.1) with
  | none =>
    simp only [hfind, Option.ite_none_left_eq_some] at hfound
    obtain ⟨hstrict, heq⟩ := hfound
    cases heq
    dsimp only
    rw [if_neg hstrict, bind_of_ok (take_of_dropWhile hcolon), bind_of_ok (skip_of_tree he hs)]
    rfl
  | some f =>
    simp only [hfind, Option.ite_none_left_eq_some] at hfound
    obtain ⟨hnew, hfound⟩ := hfound
    obtain ⟨j, hj, rfl⟩ := Option.map_eq_some_iff.1 hfound
    have hf := hfields f (List.mem_of_find?_eq_some hfind)
    dsimp only
    rw [if_neg hnew, bind_of_ok (take_of_dropWhile hcolon), bind_of_ok (h.field hf hs he hj)]
    rfl

theorem Agrees.record {es : List (String × Tree)} (hrun : Run '\x7d' (keyed (tree bound depth)) true s es rest)
    (hfields : ∀ f ∈ fields, Coherent root f.shape) (hs : s.length < bound) (hbound : es.length < bound)
    {found : List (String × Json)} (hfound : ofEntries? root .whole fields strict [] es = some found) :
    entries ((Inner.mk value (tree bound depth)).entry bound fields strict) true [] bound s =
      .ok (found.reverse, rest) := by
  have hfold := foldlM_found? [] rfl hfound
  rw [List.append_nil] at hfold
  exact hrun.entries_eq_ok (tree_takes _ _) (found? root fields strict) hs (h.entry hfields) hfold hbound

theorem Agrees.dictionary {es : List (String × Tree)} (hrun : Run '\x7d' (keyed (tree bound depth)) true s es rest)
    (hs : s.length < bound) (hbound : es.length < bound) {js : List (String × Json)}
    (hjs : ofDictionary? root .whole es = some js) :
    entries (fun found key => do
      take ':'
      return (key, ← value .text) :: found) true [] bound s = .ok (js.reverse, rest) := by
  have hfold := foldlM_texts? [] hjs
  rw [List.append_nil] at hfold
  refine hrun.entries_eq_ok (tree_takes _ _) (texts? root) hs (fun {s₁ s₂ s₃ e found found'} hs hcolon he hstep => ?_) hfold
    hbound
  obtain ⟨j, hj, rfl⟩ := Option.map_eq_some_iff.1 hstep
  rw [bind_of_ok (take_of_dropWhile hcolon), bind_of_ok (h .text hs he hj)]
  rfl

/-- The one entry of an object that gives a variant. -/
theorem Agrees.case {words : List String} {cases : List (String × Shape)}
    {forms : List (String × List (RecordField Shape))} (hshape : Coherent root (.variant words cases forms))
    {es : List (String × Tree)} (hrun : Run '\x7d' (keyed (tree bound depth)) true s es rest) (hs : s.length < bound)
    (hj : ofTree? root .whole (.variant words cases forms) (.object es) = some j) :
    ∃ s', (Inner.mk value (tree bound depth)).case words cases forms s = .ok (j, s') ∧
      s'.dropWhile isBlank = '\x7d' :: rest := by
  replace hj : ofCase? root .whole words cases forms es = some j := hj
  cases hrun with
  | close => cases hj
  | @next _ _ s₁ s₄ _ e _ more head later =>
    cases later with
    | next => cases hj
    | close hclosing =>
      obtain ⟨key, t⟩ := e
      obtain ⟨c, tail, rfl, hc, -⟩ := goesOn_first_iff.1 more
      obtain ⟨s₂, s₃, htext, hcolon, ht⟩ := keyed_eq_ok_iff.1 head
      have := length_le_of_goesOn more
      have := length_lt_of_text htext
      have := length_lt_of_dropWhile hcolon
      rw [← hc, text_passesBlanks s] at htext
      refine ⟨s₄, ?_, hclosing⟩
      rw [Inner.case, bind_of_ok htext]
      -- a word stands for itself and has null for its value; any other key tells the shape of the value
      by_cases hword : words.contains key = true
      · obtain ⟨rfl, rfl⟩ := null_of_case hword hj
        have hsimple : simple isNull? s₃ = .ok ((), s₄) := simple_of_tree ht (by simp) (by simp) rfl
        rw [if_pos hword, bind_of_ok (take_of_dropWhile hcolon), bind_of_ok hsimple]
        rfl
      · obtain ⟨shape, inner, hfound, hshape, hinner, rfl⟩ := exists_shape_of_case hshape hword hj
        rw [if_neg hword, hfound]
        refine (bind_of_ok (orMismatch_some _ _)).trans ?_
        rw [bind_of_ok (take_of_dropWhile hcolon), bind_of_ok (h hshape (by omega) ht hinner)]
        rfl

end Containers

/-! ## Containers -/

theorem readNode_array {value : Shape → Scan Json} (h : Agrees root bound depth value) {tail : List Char}
    {ts : List Tree} (hopening : s.dropWhile isBlank = '[' :: tail) (hbound : ts.length < bound)
    (hrun : Run ']' (tree bound depth) true tail ts rest) (hs : s.length < bound)
    (hshape : Coherent root (shape.untie root)) (hj : ofTree? root .whole shape (.array ts) = some j) :
    readNode bound root (some ⟨value, tree bound depth⟩) shape s = .ok (j, rest) := by
  have hlength := length_lt_of_dropWhile hopening
  have henter : enter (some ⟨value, tree bound depth⟩) ('[' :: tail) = .ok (⟨value, tree bound depth⟩, tail) :=
    bind_of_ok (advance_of_dropWhile (dropWhile_cons hopening))
  have hj := ofTree?_untie hj
  rw [readNode, bind_of_ok (peek_of_dropWhile hopening)]
  -- what the reader does goes by the untied shape
  generalize huntied : shape.untie root = untied at hshape hj
  cases untied with
  | list item =>
    obtain ⟨js, hjs, rfl⟩ := Option.map_eq_some_iff.1 hj
    obtain ⟨hitems, hcount⟩ := h.items hrun (coherent_list_iff.1 hshape) (by omega) hjs
    refine (bind_of_ok henter).trans ?_
    rw [bind_of_ok (items_eq_ok_iff.2 ⟨js, rfl, by omega, hitems⟩)]
    rfl
  | record fields strict =>
    obtain ⟨js, hjs, rfl⟩ := Option.map_eq_some_iff.1 hj
    refine (bind_of_ok henter).trans ?_
    rw [bind_of_ok (h.positions hrun (coherent_record_iff.1 hshape).2.1 (by omega) hjs)]
    rfl
  | tagged tag forms =>
    refine (bind_of_ok henter).trans ?_
    cases hrun with
    | close => cases hj
    | next more head later =>
      obtain ⟨word, fields, js, hform, hjs, rfl⟩ := exists_form_of_array hj
      obtain ⟨_, hword, -⟩ := form?_eq_some_iff.1 hform
      have hsimple := simple_of_tree head (by simp [hword]) (by simp [hword]) hform
      have hcount := Nat.lt_of_succ_lt hbound
      rw [bind_of_ok more, if_pos rfl, bind_of_ok hsimple]
      dsimp only
      rw [bind_of_ok (items_eq_ok_iff.2 ⟨_, rfl, hcount, later⟩)]
      refine (bind_of_ok (?_ : orMismatch _ _ = .ok (js, rest))).trans rfl
      rw [List.reverse_nil, List.nil_append, hjs]
      rfl
  | knot =>
    cases eq_knot_of_untie huntied
    simp [ofTree?, untie] at hj
  | _ => simp [ofTree?, untie] at hj

theorem readNode_object {value : Shape → Scan Json} (h : Agrees root bound depth value) {tail : List Char}
    {es : List (String × Tree)} (hopening : s.dropWhile isBlank = '\x7b' :: tail) (hbound : es.length < bound)
    (hrun : Run '\x7d' (keyed (tree bound depth)) true tail es rest) (hs : s.length < bound)
    (hshape : Coherent root (shape.untie root)) (hj : ofTree? root .whole shape (.object es) = some j) :
    readNode bound root (some ⟨value, tree bound depth⟩) shape s = .ok (j, rest) := by
  have hlength := length_lt_of_dropWhile hopening
  have henter : enter (some ⟨value, tree bound depth⟩) ('\x7b' :: tail) = .ok (⟨value, tree bound depth⟩, tail) :=
    bind_of_ok (advance_of_dropWhile (dropWhile_cons hopening))
  have hj := ofTree?_untie hj
  rw [readNode, bind_of_ok (peek_of_dropWhile hopening)]
  generalize huntied : shape.untie root = untied at hshape hj
  cases untied with
  | dictionary =>
    obtain ⟨js, hjs, rfl⟩ := Option.map_eq_some_iff.1 hj
    refine (bind_of_ok henter).trans ?_
    rw [bind_of_ok (h.dictionary hrun (by omega) hbound hjs), List.reverse_reverse]
    rfl
  | record fields strict =>
    rw [ofTree?_record] at hj
    obtain ⟨js, hjs, rfl⟩ := Option.map_eq_some_iff.1 hj
    obtain ⟨found, hfound, hcomplete⟩ := Option.bind_eq_some_iff.1 hjs
    refine (bind_of_ok henter).trans ?_
    rw [bind_of_ok (h.record hrun (coherent_record_iff.1 hshape).2.1 (by omega) hbound hfound),
      complete?_reverse (keys_of_ofEntries? hfound).1, hcomplete, bind_of_ok (orMismatch_some _ _)]
    rfl
  | variant words cases forms =>
    obtain ⟨s', hcase, hclosing⟩ := h.case hshape hrun (by omega) hj
    refine (bind_of_ok henter).trans ?_
    rw [bind_of_ok hcase, bind_of_ok (take_of_dropWhile hclosing)]
    rfl
  | tagged tag forms =>
    obtain ⟨key, t, word, fields, js, htags, hform, hjs, rfl⟩ := exists_form_of_object hshape hj
    refine (bind_of_ok henter).trans ?_
    rw [bind_of_ok (entries_tagged hrun hbound htags hform)]
    dsimp only
    rw [bind_of_ok (orMismatch_some _ _)]
    dsimp only
    rw [List.reverse_reverse, hjs, bind_of_ok (orMismatch_some _ _)]
    rfl
  | knot =>
    cases eq_knot_of_untie huntied
    simp [ofTree?, untie] at hj
  | _ => simp [ofTree?, untie] at hj

/-- What is read of a value from the text is what is read of its tree. -/
theorem read_of_tree (hroot : Coherent root root) (hshape : Coherent root shape) (hs : s.length < bound)
    (ht : tree bound depth s = .ok (t, rest)) (hj : ofTree? root .whole shape t = some j) :
    read bound root depth shape s = .ok (j, rest) := by
  induction depth generalizing shape s t rest j with
  | zero => exact readNode_of_plain (plain_of_scalar ht) hj none
  | succ depth ih =>
    have hinner : Agrees root bound depth (read bound root depth) := fun shape hshape s t rest j hs ht hj =>
      ih hshape hs ht hj
    obtain hplain | ⟨_, tail, heq, ⟨ts, rfl, hopening, hbound, hrun⟩ | ⟨es, rfl, hopening, hbound, hrun⟩⟩ := tree_cases ht
    · exact readNode_of_plain hplain hj _
    · cases heq
      exact readNode_array hinner hopening hbound hrun hs (hshape.untie hroot) hj
    · cases heq
      exact readNode_object hinner hopening hbound hrun hs (hshape.untie hroot) hj

/-- A text is read by a shape as its value is. -/
theorem readText_of_read? (hroot : Coherent root root) (hshape : Coherent root shape) {text : String}
    (ht : Tree.read? text = some t) (hj : ofTree? root .whole shape t = some j) : readText root shape text = .ok j := by
  obtain ⟨rest, hread, hblank⟩ := Tree.read?_eq_some_iff.1 ht
  exact readAll_eq_ok_iff.2 ⟨rest, read_of_tree hroot hshape (by omega) hread hj, hblank⟩

end Exonym.Shape
