import Exonym.Json.Shape
import Mathlib.Data.List.Forall2
import Mathlib.Data.List.Nodup
import Mathlib.Logic.Relation

/-!
# Values that may be written in several ways

A record may be written with fields that it does not have, and without fields that hold their defaults. Neither makes a
difference to what is read, at whatever depth it is done, as long as the shapes are coherent: names are distinct, and a
default is itself a value of its field.

Main statements:

* `Shape.Reads.record`, `Shape.Reads.tagged`: a record is read as itself if its fields are.
* `Shape.ofTree?_record_of_perm`: the order of its fields makes no difference.
* `Shape.Coherent.ofTree?_edit`: one edit makes no difference to what is read.
* `Shape.Coherent.ofTree?_edits`: any number of edits make none.
-/

namespace Exonym.Shape

/-! ## Fields -/

/-- What is read of a field. -/
def fieldOfTree? (root : Shape) (m : Manner) (f : RecordField Shape) (t : Tree) : Option Json :=
  if f.nullable && t matches .null then some .null else ofTree? root m f.shape t

variable {root shape : Shape} {m : Manner} {fields : List (RecordField Shape)} {strict : Bool} {seen : List String}

theorem ofEntries?_cons (key : String) (t : Tree) (rest : List (String × Tree)) :
    ofEntries? root m fields strict seen ((key, t) :: rest) =
      match fields.find? (·.name = key) with
      | none => if strict then none else ofEntries? root m fields strict seen rest
      | some f =>
        if seen.contains key then none
        else (fieldOfTree? root m f t).bind fun j =>
          (ofEntries? root m fields strict (key :: seen) rest).map ((key, j) :: ·) := by
  conv_lhs => unfold ofEntries?
  cases fields.find? (·.name = key) with
  | none => rfl
  | some f =>
    by_cases hseen : seen.contains key = true
    · simp only [hseen, if_true]
      rfl
    · simp only [hseen, if_false, fieldOfTree?, Bool.false_eq_true, bind_pure_comp]
      cases f.nullable && t matches .null <;> rfl

theorem ofPositions?_cons (f : RecordField Shape) (t : Tree) (rest : List Tree) :
    ofPositions? root m (f :: fields) (t :: rest) =
      (fieldOfTree? root m f t).bind fun j => (ofPositions? root m fields rest).map ((f.name, j) :: ·) := by
  conv_lhs => unfold ofPositions?
  simp only [fieldOfTree?, bind_pure_comp]
  cases f.nullable && t matches .null <;> rfl

/-- What is read of the entries of a record. -/
theorem ofTree?_record (es : List (String × Tree)) :
    ofTree? root m (.record fields strict) (.object es) =
      ((ofEntries? root m fields strict [] es).bind fun found => complete? fields found).map .object := by
  rw [Option.map_bind]
  rfl

theorem ofTree?_tagged {tag word : String} {forms : List (String × List (RecordField Shape))}
    {es : List (String × Tree)} (htag : es.filter (·.1 = tag) = [(tag, .text word)])
    (hform : forms.find? (·.1 = word) = some (word, fields)) :
    ofTree? root m (.tagged tag forms) (.object es) =
      ((ofEntries? root .part fields false [] es).bind fun found => complete? fields found).map fun js =>
        .object ((tag, .text word) :: js) := by
  rw [Option.map_bind]
  simp only [ofTree?, untie, htag, Manner.form?, hform]
  rfl

/-! ## Fields in their order -/

theorem find?_of_nodup {α β : Type} [DecidableEq β] {key : α → β} {xs : List α} (h : (xs.map key).Nodup) {x : α}
    (hx : x ∈ xs) : xs.find? (fun y => decide (key y = key x)) = some x := by
  induction xs with
  | nil => cases hx
  | cons y rest ih =>
    obtain ⟨hy, hrest⟩ := List.nodup_cons.1 h
    rcases List.mem_cons.1 hx with rfl | hx
    · simp
    · have hne : key y ≠ key x := fun heq => hy (heq ▸ List.mem_map_of_mem hx)
      rw [List.find?_cons_of_neg (by simpa using hne), ih hrest hx]

/-- What a record has in a field: what was found, or the default. -/
def held (found : List (String × Json)) (f : RecordField Shape) : Option Json :=
  ((found.find? (·.1 = f.name)).map (·.2)).or f.default

theorem complete?_eq_mapM (found : List (String × Json)) :
    complete? fields found = fields.mapM fun f => (held found f).map fun j => (f.name, j) := rfl

theorem complete?_cons (f : RecordField Shape) (found : List (String × Json)) :
    complete? (f :: fields) found =
      (held found f).bind fun j => (complete? fields found).map ((f.name, j) :: ·) := by
  simp only [complete?_eq_mapM, List.mapM_cons, bind_pure_comp]
  cases held found f <;> rfl

theorem complete?_congr {found found' : List (String × Json)} (h : ∀ f ∈ fields, held found f = held found' f) :
    complete? fields found = complete? fields found' := by
  induction fields with
  | nil => rfl
  | cons f rest ih =>
    obtain ⟨hf, hrest⟩ := List.forall_mem_cons.1 h
    rw [complete?_cons, complete?_cons, hf, ih hrest]

theorem complete?_of_held {found js : List (String × Json)}
    (h : List.Forall₂ (fun f e => e.1 = f.name ∧ held found f = some e.2) fields js) :
    complete? fields found = some js := by
  induction h with
  | nil => rfl
  | cons he _ ih =>
    obtain ⟨hname, hheld⟩ := he
    rw [complete?_cons, hheld, ih, ← hname]
    rfl

theorem held_of_mem {found : List (String × Json)} (h : (found.map (·.1)).Nodup) {e : String × Json} (he : e ∈ found)
    {f : RecordField Shape} (hname : e.1 = f.name) : held found f = some e.2 := by
  have hfind := find?_of_nodup h he
  rw [hname] at hfind
  rw [held, hfind]
  rfl

/-! ## Values that are read as themselves -/

/-- The value is read as itself, in whatever manner. -/
def Reads (root shape : Shape) (j : Json) : Prop :=
  ∀ m, ofTree? root m shape (.ofJson j) = some j

/-- The value is read as itself where it is that of a field. -/
def FieldReads (root : Shape) (f : RecordField Shape) (j : Json) : Prop :=
  ∀ m, fieldOfTree? root m f (.ofJson j) = some j

theorem ofEntries?_ofFields {js : List (String × Json)} (hkeys : (js.map (·.1)).Nodup) (hseen : ∀ e ∈ js, e.1 ∉ seen)
    (h : ∀ e ∈ js, ∃ f, fields.find? (·.name = e.1) = some f ∧ FieldReads root f e.2) :
    ofEntries? root m fields strict seen (Tree.ofFields js) = some js := by
  induction js generalizing seen with
  | nil => rfl
  | cons e rest ih =>
    obtain ⟨hkey, hkeys⟩ := List.nodup_cons.1 hkeys
    obtain ⟨⟨f, hf, hreads⟩, h⟩ := List.forall_mem_cons.1 h
    obtain ⟨hfirst, hseen⟩ := List.forall_mem_cons.1 hseen
    have hrest : ∀ x ∈ rest, x.1 ∉ e.1 :: seen := by
      intro x hx
      rw [List.mem_cons, not_or]
      exact ⟨fun heq => hkey (List.mem_map.2 ⟨x, hx, heq⟩), hseen x hx⟩
    rw [Tree.ofFields, ofEntries?_cons, hf]
    simp [hfirst, hreads m, ih hkeys hrest h]

section Records

variable {js : List (String × Json)} (hnames : (fields.map (·.name)).Nodup)
  (h : List.Forall₂ (fun f e => e.1 = f.name ∧ FieldReads root f e.2) fields js)

include h

theorem keys_of_forall₂ : js.map (·.1) = fields.map (·.name) := by
  induction h with
  | nil => rfl
  | cons he _ ih => rw [List.map_cons, List.map_cons, ih, he.1]

theorem exists_field {e : String × Json} (he : e ∈ js) : ∃ f ∈ fields, e.1 = f.name ∧ FieldReads root f e.2 := by
  induction h with
  | nil => cases he
  | cons hfirst _ ih =>
    rcases List.mem_cons.1 he with rfl | he
    · exact ⟨_, List.mem_cons_self, hfirst⟩
    · obtain ⟨f, hf, hreads⟩ := ih he
      exact ⟨f, List.mem_cons_of_mem _ hf, hreads⟩

include hnames

theorem ofEntries?_of_forall₂ {js' : List (String × Json)} (hperm : js'.Perm js) :
    ofEntries? root m fields strict [] (Tree.ofFields js') = some js' := by
  have hkeys : (js'.map (·.1)).Nodup := (hperm.map _).nodup_iff.2 (by rwa [keys_of_forall₂ h])
  refine ofEntries?_ofFields hkeys (by simp) fun e he => ?_
  obtain ⟨f, hf, hname, hreads⟩ := exists_field h (hperm.mem_iff.1 he)
  exact ⟨f, hname ▸ find?_of_nodup hnames hf, hreads⟩

theorem complete?_of_forall₂ {js' : List (String × Json)} (hperm : js'.Perm js) : complete? fields js' = some js := by
  have hkeys : (js'.map (·.1)).Nodup := (hperm.map _).nodup_iff.2 (by rwa [keys_of_forall₂ h])
  refine complete?_of_held (List.forall₂_iff_zip.2 ⟨h.length_eq, fun {f e} hfe => ?_⟩)
  have hname := ((List.forall₂_iff_zip.1 h).2 hfe).1
  exact ⟨hname, held_of_mem hkeys (hperm.mem_iff.2 (List.of_mem_zip hfe).2) hname⟩

/-- A record with its fields in any order is read as the one with its fields in theirs. -/
theorem ofTree?_record_of_perm {js' : List (String × Json)} (hperm : js'.Perm js) :
    ofTree? root m (.record fields strict) (.ofJson (.object js')) = some (.object js) := by
  rw [Tree.ofJson, ofTree?_record, ofEntries?_of_forall₂ hnames h hperm, Option.bind_some,
    complete?_of_forall₂ hnames h hperm]
  rfl

/-- A record with its fields in order, each of which is read as itself, is read as itself. -/
theorem Reads.record : Reads root (.record fields strict) (.object js) :=
  fun _ => ofTree?_record_of_perm hnames h (.refl _)

/-- A tagged record is, if the tag is not the name of a field too. -/
theorem Reads.tagged {tag word : String} {forms : List (String × List (RecordField Shape))}
    (hform : forms.find? (·.1 = word) = some (word, fields)) (htag : tag ∉ fields.map (·.name)) :
    Reads root (.tagged tag forms) (.object ((tag, .text word) :: js)) := by
  intro m
  have htags : (Tree.ofFields js).filter (·.1 = tag) = [] := by
    rw [List.filter_eq_nil_iff, Tree.ofFields_eq_map, List.forall_mem_map]
    intro e he htagged
    rw [← keys_of_forall₂ h] at htag
    exact htag (List.mem_map.2 ⟨e, he, of_decide_eq_true htagged⟩)
  have hfind : fields.find? (·.name = tag) = none := by
    rw [List.find?_eq_none]
    exact fun f hf hname => htag (List.mem_map.2 ⟨f, hf, of_decide_eq_true hname⟩)
  have hfound : ofEntries? root .part fields false [] ((tag, .text word) :: Tree.ofFields js) = some js := by
    rw [ofEntries?_cons, hfind]
    exact ofEntries?_of_forall₂ hnames h (.refl _)
  rw [Tree.ofJson, Tree.ofFields, Tree.ofJson, ofTree?_tagged _ hform, hfound, Option.bind_some,
    complete?_of_forall₂ hnames h (.refl _)]
  · rfl
  · simp [htags]

end Records

@[simp] theorem reads_text (s : String) : Reads root .text (.text s) := fun _ => rfl

@[simp] theorem reads_flag (b : Bool) : Reads root .flag (.bool b) := fun _ => rfl

@[simp] theorem reads_int_iff {n : Int} : Reads root .number (.int n) ↔ 0 ≤ n ∧ n < UInt32.size := by
  simp only [Reads, Tree.ofJson, ofTree?, Option.ite_none_right_eq_some, and_true]
  exact ⟨fun h => h .whole, fun h _ => h⟩

@[simp] theorem reads_number (n : UInt32) : Reads root .number (.ofWord n) := fun m => ofTree?_number root m n

theorem Reads.list {js : List Json} (h : ∀ j ∈ js, Reads root shape j) : Reads root (.list shape) (.array js) := by
  intro m
  have hitems : ofItems? root m shape (Tree.ofItems js) = some js := by
    induction js with
    | nil => rfl
    | cons j rest ih =>
      obtain ⟨hj, hrest⟩ := List.forall_mem_cons.1 h
      simp [Tree.ofItems, ofItems?, hj m, ih hrest]
  rw [Tree.ofJson, ofTree?]
  simp [untie, hitems]

@[simp] theorem reads_nil : Reads root (.list shape) (.array []) :=
  .list (by simp)

theorem Reads.ofList {α : Type} {write : α → Json} (h : ∀ a, Reads root shape (write a)) (items : List α) :
    Reads root (.list shape) (.ofList write items) :=
  .list (List.forall_mem_map.2 fun a _ => h a)

theorem Reads.dictionary (entries : List (String × String)) :
    Reads root .dictionary (.object (entries.map fun e => (e.1, .text e.2))) := by
  intro m
  have hentries : ofDictionary? root m (Tree.ofFields (entries.map fun e => (e.1, .text e.2))) =
      some (entries.map fun e => (e.1, .text e.2)) := by
    induction entries with
    | nil => rfl
    | cons e rest ih => simp [Tree.ofFields, Tree.ofJson, ofDictionary?, ofTree?, ih]
  rw [Tree.ofJson, ofTree?]
  simp [untie, hentries]

section Variants

variable {words : List String} {cases : List (String × Shape)} {forms : List (String × List (RecordField Shape))}
  {key : String}

theorem ofTree?_case (hwords : key ∉ words) (hcase : cases.find? (·.1 = key) = some (key, shape)) (t : Tree) :
    ofTree? root m (.variant words cases forms) (.object [(key, t)]) =
      (ofTree? root m shape t).map fun j => .object [(key, j)] := by
  have hcontains : words.contains key = false := by simpa using hwords
  change ofCase? root m words cases forms [(key, t)] = _
  simp only [ofCase?, hcontains, hcase, Bool.false_eq_true, if_false]

theorem ofTree?_form (hwords : key ∉ words) (hcase : cases.find? (·.1 = key) = none)
    (hform : forms.find? (·.1 = key) = some (key, fields)) (es : List (String × Tree)) :
    ofTree? root m (.variant words cases forms) (.object [(key, .object es)]) =
      (ofTree? root m (.record fields false) (.object es)).map fun j => .object [(key, j)] := by
  have hcontains : words.contains key = false := by simpa using hwords
  change ofCase? root m words cases forms [(key, .object es)] = _
  simp only [ofCase?, hcontains, hcase, hform, Manner.givesForm, Bool.false_eq_true, if_false, if_true]

@[simp] theorem reads_choice_iff {s : String} : Reads root (.choice words) (.text s) ↔ s ∈ words := by
  simp only [Reads, choice, Tree.ofJson, ofTree?, List.contains_iff_mem, Option.ite_none_right_eq_some, and_true]
  exact ⟨fun h => h .whole, fun h _ => h⟩

theorem Reads.word {s : String} (h : s ∈ words) : Reads root (.variant words cases forms) (.text s) := by
  intro m
  simp [Tree.ofJson, ofTree?, h]

theorem Reads.case {j : Json} (hwords : key ∉ words) (hcase : cases.find? (·.1 = key) = some (key, shape))
    (h : Reads root shape j) : Reads root (.variant words cases forms) (.object [(key, j)]) := by
  intro m
  rw [Tree.ofJson, Tree.ofFields, Tree.ofFields, ofTree?_case hwords hcase, h m]
  rfl

theorem Reads.form {js : List (String × Json)} (hwords : key ∉ words) (hcase : cases.find? (·.1 = key) = none)
    (hform : forms.find? (·.1 = key) = some (key, fields)) (h : Reads root (.record fields false) (.object js)) :
    Reads root (.variant words cases forms) (.object [(key, .object js)]) := by
  intro m
  have hobject := h m
  rw [Tree.ofJson] at hobject
  rw [Tree.ofJson, Tree.ofFields, Tree.ofFields, Tree.ofJson, ofTree?_form hwords hcase hform, hobject]
  rfl

end Variants

theorem ofTree?_knot_object (es : List (String × Tree)) :
    ofTree? root m .knot (.object es) = ofTree? root m root (.object es) := by
  cases root <;> rfl

theorem ofTree?_knot_array (items : List Tree) :
    ofTree? root m .knot (.array items) = ofTree? root m root (.array items) := by
  cases root <;> rfl

theorem Reads.knot {js : List (String × Json)} (h : Reads root root (.object js)) : Reads root .knot (.object js) := by
  intro m
  rw [Tree.ofJson, ofTree?_knot_object]
  exact h m

theorem Reads.ne_null {j : Json} (h : Reads root shape j) : j ≠ .null := by
  rintro rfl
  have := h .whole
  simp [Tree.ofJson, ofTree?] at this

@[simp] theorem fieldReads_required {name : String} {j : Json} :
    FieldReads root (required name shape) j ↔ Reads root shape j := Iff.rfl

@[simp] theorem fieldReads_defaulted {name : String} {value j : Json} :
    FieldReads root (defaulted name shape value) j ↔ Reads root shape j := Iff.rfl

@[simp] theorem fieldReads_null (name : String) : FieldReads root (Shape.optional name shape) .null := fun _ => rfl

theorem fieldReads_optional {α : Type} {name : String} {write : α → Json} {o : Option α}
    (h : ∀ a, Reads root shape (write a)) : FieldReads root (Shape.optional name shape) (.ofOption write o) := by
  intro m
  cases o with
  | none => exact fieldReads_null name m
  | some a =>
    have hnull : (Tree.ofJson (write a) matches .null) = false := by
      have := (h a).ne_null
      cases hwrite : write a <;> simp_all [Tree.ofJson]
    simp only [fieldOfTree?, Json.ofOption, hnull, Bool.and_false, Bool.false_eq_true, if_false]
    exact h a m

/-! ## Edits -/

/-- One edit of a value that is written for a shape: in one record, at whatever depth, a field that it does not have comes
in, or one that holds its default goes. In a tagged record the tag stays as it is, and comes in no second time. -/
inductive Edit (root : Shape) : Shape → Tree → Tree → Prop
  | add {fields : List (RecordField Shape)} (before after : List (String × Tree)) {key : String} (t : Tree)
    (h : key ∉ fields.map (·.name)) :
    Edit root (.record fields false) (.object (before ++ after)) (.object (before ++ (key, t) :: after))
  | drop {fields : List (RecordField Shape)} {strict : Bool} (before after : List (String × Tree))
    {f : RecordField Shape} {j : Json} (hf : f ∈ fields) (h : f.default = some j) :
    Edit root (.record fields strict) (.object (before ++ (f.name, .ofJson j) :: after)) (.object (before ++ after))
  | field {fields : List (RecordField Shape)} {strict : Bool} (before after : List (String × Tree))
    {f : RecordField Shape} {t t' : Tree} (hf : f ∈ fields) (h : Edit root f.shape t t') :
    Edit root (.record fields strict) (.object (before ++ (f.name, t) :: after))
      (.object (before ++ (f.name, t') :: after))
  | item {shape : Shape} (before after : List Tree) {t t' : Tree} (h : Edit root shape t t') :
    Edit root (.list shape) (.array (before ++ t :: after)) (.array (before ++ t' :: after))
  | case {words : List String} {cases : List (String × Shape)} {forms : List (String × List (RecordField Shape))}
    {key : String} {shape : Shape} {t t' : Tree} (hkey : (key, shape) ∈ cases) (h : Edit root shape t t') :
    Edit root (.variant words cases forms) (.object [(key, t)]) (.object [(key, t')])
  | form {words : List String} {cases : List (String × Shape)} {forms : List (String × List (RecordField Shape))}
    {key : String} {fields : List (RecordField Shape)} {t t' : Tree} (hkey : (key, fields) ∈ forms)
    (h : Edit root (.record fields false) t t') :
    Edit root (.variant words cases forms) (.object [(key, t)]) (.object [(key, t')])
  | tagged {tag word : String} {forms : List (String × List (RecordField Shape))} {fields : List (RecordField Shape)}
    {es es' : List (String × Tree)} (hword : (word, fields) ∈ forms) (htag : (tag, .text word) ∈ es)
    (htags : es'.filter (·.1 = tag) = es.filter (·.1 = tag))
    (h : Edit root (.record fields false) (.object es) (.object es')) :
    Edit root (.tagged tag forms) (.object es) (.object es')
  | knot {t t' : Tree} (h : Edit root root t t') : Edit root .knot t t'

/-- In every record of the shape names are distinct and a default is a value of its field; what a value can be told to be
by its tag or key is distinct, too, and the tag is not the name of a field. -/
inductive Coherent (root : Shape) : Shape → Prop
  | text : Coherent root .text
  | number : Coherent root .number
  | flag : Coherent root .flag
  | dictionary : Coherent root .dictionary
  | knot : Coherent root .knot
  | list {shape : Shape} (h : Coherent root shape) : Coherent root (.list shape)
  | record {fields : List (RecordField Shape)} {strict : Bool} (names : (fields.map (·.name)).Nodup)
    (inner : ∀ f ∈ fields, Coherent root f.shape) (defaults : ∀ f ∈ fields, ∀ j ∈ f.default, FieldReads root f j) :
    Coherent root (.record fields strict)
  | variant {words : List String} {cases : List (String × Shape)} {forms : List (String × List (RecordField Shape))}
    (keys : (words ++ cases.map (·.1) ++ forms.map (·.1)).Nodup) (inner : ∀ c ∈ cases, Coherent root c.2)
    (records : ∀ c ∈ forms, Coherent root (.record c.2 false)) : Coherent root (.variant words cases forms)
  | tagged {tag : String} {forms : List (String × List (RecordField Shape))} (keys : (forms.map (·.1)).Nodup)
    (apart : ∀ c ∈ forms, tag ∉ c.2.map (·.name)) (records : ∀ c ∈ forms, Coherent root (.record c.2 false)) :
    Coherent root (.tagged tag forms)

section Parts

variable {words : List String} {cases : List (String × Shape)} {forms : List (String × List (RecordField Shape))}

attribute [simp] Coherent.text Coherent.number Coherent.flag Coherent.dictionary Coherent.knot

@[simp] theorem coherent_list_iff : Coherent root (.list shape) ↔ Coherent root shape :=
  ⟨fun | .list h => h, .list⟩

@[simp] theorem coherent_record_iff : Coherent root (.record fields strict) ↔ (fields.map (·.name)).Nodup ∧
    (∀ f ∈ fields, Coherent root f.shape) ∧ ∀ f ∈ fields, ∀ j ∈ f.default, FieldReads root f j :=
  ⟨fun | .record names inner defaults => ⟨names, inner, defaults⟩, fun ⟨names, inner, defaults⟩ =>
    .record names inner defaults⟩

@[simp] theorem coherent_variant_iff : Coherent root (.variant words cases forms) ↔
    (words ++ cases.map (·.1) ++ forms.map (·.1)).Nodup ∧ (∀ c ∈ cases, Coherent root c.2) ∧
      ∀ c ∈ forms, Coherent root (.record c.2 false) :=
  ⟨fun | .variant keys inner records => ⟨keys, inner, records⟩, fun ⟨keys, inner, records⟩ =>
    .variant keys inner records⟩

@[simp] theorem coherent_choice_iff : Coherent root (.choice words) ↔ words.Nodup := by
  simp [choice]

@[simp] theorem coherent_tagged_iff {tag : String} : Coherent root (.tagged tag forms) ↔
    (forms.map (·.1)).Nodup ∧ (∀ c ∈ forms, tag ∉ c.2.map (·.name)) ∧ ∀ c ∈ forms, Coherent root (.record c.2 false) :=
  ⟨fun | .tagged keys apart records => ⟨keys, apart, records⟩, fun ⟨keys, apart, records⟩ => .tagged keys apart records⟩

end Parts

/-! ### Entries of a record -/

/-- Whether a key names a field. -/
def isKnown (fields : List (RecordField Shape)) (key : String) : Bool :=
  (fields.find? (·.name = key)).isSome

theorem find?_eq_none_of_not_mem {key : String} (h : key ∉ fields.map (·.name)) :
    fields.find? (·.name = key) = none := by
  rw [List.find?_eq_none]
  exact fun f hf hname => h (List.mem_map.2 ⟨f, hf, of_decide_eq_true hname⟩)

theorem ofEntries?_append (before after : List (String × Tree)) :
    ofEntries? root m fields strict seen (before ++ after) =
      (ofEntries? root m fields strict seen before).bind fun found =>
        (ofEntries? root m fields strict (((before.map (·.1)).filter (isKnown fields)).reverse ++ seen) after).map
          (found ++ ·) := by
  induction before generalizing seen with
  | nil => simp [ofEntries?]
  | cons e rest ih =>
    obtain ⟨key, t⟩ := e
    rw [List.cons_append, ofEntries?_cons, ofEntries?_cons]
    cases hfind : fields.find? (·.name = key) with
    | none =>
      simp only [ih, List.map_cons, List.filter_cons, isKnown, hfind, Option.isSome_none, Bool.false_eq_true, if_false]
      split <;> rfl
    | some f =>
      simp only [ih, List.map_cons, List.filter_cons, isKnown, hfind, Option.isSome_some, if_true, List.reverse_cons,
        List.append_assoc, List.singleton_append]
      split
      · rfl
      · simp only [Option.map_bind, Option.bind_assoc, Option.bind_map, Option.map_map, Function.comp_def,
          List.cons_append]

/-- A field is read no second time. -/
theorem keys_of_ofEntries? {es : List (String × Tree)} {found : List (String × Json)}
    (h : ofEntries? root m fields strict seen es = some found) :
    (found.map (·.1)).Nodup ∧ ∀ e ∈ found, e.1 ∉ seen := by
  induction es generalizing seen found with
  | nil =>
    cases h
    simp
  | cons e rest ih =>
    obtain ⟨key, t⟩ := e
    rw [ofEntries?_cons] at h
    split at h
    · split at h
      · cases h
      · exact ih h
    · split at h
      · cases h
      · rename_i hseen
        obtain ⟨j, -, hmap⟩ := Option.bind_eq_some_iff.1 h
        obtain ⟨found, hrest, rfl⟩ := Option.map_eq_some_iff.1 hmap
        obtain ⟨hnodup, hnew⟩ := ih hrest
        refine ⟨List.nodup_cons.2 ⟨fun hkey => ?_, hnodup⟩, List.forall_mem_cons.2 ⟨by simpa using hseen, fun e he => ?_⟩⟩
        · obtain ⟨e, he, heq⟩ := List.mem_map.1 hkey
          exact hnew e he (List.mem_cons.2 (.inl heq))
        · exact fun hmem => hnew e he (List.mem_cons_of_mem _ hmem)

/-- Entries can be read without those before them. -/
theorem ofEntries?_mono {seen' : List String} (hsub : seen' ⊆ seen) {es : List (String × Tree)}
    {found : List (String × Json)} (h : ofEntries? root m fields strict seen es = some found) :
    ofEntries? root m fields strict seen' es = some found := by
  induction es generalizing seen seen' found with
  | nil => exact h
  | cons e rest ih =>
    obtain ⟨key, t⟩ := e
    rw [ofEntries?_cons] at h ⊢
    split at h
    · split at h
      · cases h
      · rename_i hstrict
        rw [if_neg hstrict]
        exact ih hsub h
    · split at h
      · cases h
      · rename_i hseen
        have hseen' : ¬seen'.contains key = true := by
          simp only [List.contains_iff_mem] at hseen ⊢
          exact fun hmem => hseen (hsub hmem)
        obtain ⟨j, hj, hmap⟩ := Option.bind_eq_some_iff.1 h
        obtain ⟨found, hrest, rfl⟩ := Option.map_eq_some_iff.1 hmap
        rw [if_neg hseen', hj, Option.bind_some, ih (List.cons_subset_cons _ hsub) hrest]
        rfl

section OneEntry

variable {before after : List (String × Tree)} {key : String} {t t' : Tree} {f : RecordField Shape}
  {found : List (String × Json)}

/-- An entry that is no field is passed over. -/
theorem ofEntries?_add (h : key ∉ fields.map (·.name)) :
    ofEntries? root m fields false seen (before ++ (key, t) :: after) =
      ofEntries? root m fields false seen (before ++ after) := by
  rw [ofEntries?_append, ofEntries?_append, ofEntries?_cons, find?_eq_none_of_not_mem h]
  rfl

/-- What an entry of a field contributes to what is found. -/
theorem ofEntries?_split (hfind : fields.find? (·.name = key) = some f)
    (h : ofEntries? root m fields strict seen (before ++ (key, t) :: after) = some found) :
    ∃ found₁ j found₂, found = found₁ ++ (key, j) :: found₂ ∧ fieldOfTree? root m f t = some j ∧
      ofEntries? root m fields strict seen (before ++ after) = some (found₁ ++ found₂) ∧
      ∀ t', fieldOfTree? root m f t' = some j →
        ofEntries? root m fields strict seen (before ++ (key, t') :: after) = some found := by
  rw [ofEntries?_append, ofEntries?_cons, hfind] at h
  obtain ⟨found₁, hbefore, hmap⟩ := Option.bind_eq_some_iff.1 h
  obtain ⟨later, hlater, rfl⟩ := Option.map_eq_some_iff.1 hmap
  simp only at hlater
  split at hlater
  · cases hlater
  · rename_i hseen
    obtain ⟨j, hj, hmap⟩ := Option.bind_eq_some_iff.1 hlater
    obtain ⟨found₂, hafter, rfl⟩ := Option.map_eq_some_iff.1 hmap
    refine ⟨found₁, j, found₂, rfl, hj, ?_, fun t' ht' => ?_⟩
    · rw [ofEntries?_append, hbefore, Option.bind_some, ofEntries?_mono (List.subset_cons_self _ _) hafter]
      rfl
    · rw [ofEntries?_append, hbefore, Option.bind_some, ofEntries?_cons, hfind]
      simp only
      rw [if_neg hseen, ht', Option.bind_some, hafter]
      rfl

/-- A record does without a field that was found to hold its default. -/
theorem complete?_drop {found₁ found₂ : List (String × Json)} {j : Json} (hnames : (fields.map (·.name)).Nodup)
    (hf : f ∈ fields) (hdefault : f.default = some j)
    (hkeys : ((found₁ ++ (f.name, j) :: found₂).map (·.1)).Nodup) :
    complete? fields (found₁ ++ found₂) = complete? fields (found₁ ++ (f.name, j) :: found₂) := by
  refine complete?_congr fun g hg => ?_
  by_cases hname : f.name = g.name
  · obtain rfl : f = g := List.inj_on_of_nodup_map hnames hf hg hname
    have hnone : (found₁ ++ found₂).find? (·.1 = f.name) = none := by
      rw [List.map_append, List.map_cons, List.nodup_middle] at hkeys
      rw [List.find?_eq_none]
      intro e he heq
      rw [← List.map_append] at hkeys
      exact (List.nodup_cons.1 hkeys).1 (List.mem_map.2 ⟨e, he, of_decide_eq_true heq⟩)
    rw [held_of_mem hkeys (List.mem_append_right _ List.mem_cons_self) rfl, held, hnone, hdefault]
    rfl
  · simp [held, List.find?_append, hname]

end OneEntry

/-! ### Tags and keys -/

section Keys

variable {words : List String} {cases : List (String × Shape)} {forms : List (String × List (RecordField Shape))}
  {key : String}

theorem find?_of_variant_keys (h : (words ++ cases.map (·.1) ++ forms.map (·.1)).Nodup) (hkey : (key, shape) ∈ cases) :
    key ∉ words ∧ cases.find? (·.1 = key) = some (key, shape) := by
  obtain ⟨hwords, hcases, hapart⟩ := List.nodup_append.1 (List.nodup_append.1 h).1
  exact ⟨fun hmem => hapart _ hmem _ (List.mem_map_of_mem hkey) rfl, find?_of_nodup hcases hkey⟩

theorem find?_of_form_keys (h : (words ++ cases.map (·.1) ++ forms.map (·.1)).Nodup) (hkey : (key, fields) ∈ forms) :
    key ∉ words ∧ cases.find? (·.1 = key) = none ∧ forms.find? (·.1 = key) = some (key, fields) := by
  obtain ⟨-, hforms, hapart⟩ := List.nodup_append.1 h
  have hother : ∀ other ∈ words ++ cases.map (·.1), other ≠ key := fun other hmem =>
    hapart other hmem key (List.mem_map_of_mem hkey)
  refine ⟨fun hmem => hother _ (List.mem_append_left _ hmem) rfl, ?_, find?_of_nodup hforms hkey⟩
  rw [List.find?_eq_none]
  exact fun c hc heq => hother _ (List.mem_append_right _ (List.mem_map_of_mem hc)) (of_decide_eq_true heq)

/-- A tagged record that is read has one tag. -/
theorem filter_tag_of_ofTree? {tag word : String} {es : List (String × Tree)} {j : Json}
    (h : ofTree? root m (.tagged tag forms) (.object es) = some j) (htag : (tag, .text word) ∈ es) :
    es.filter (·.1 = tag) = [(tag, .text word)] := by
  have hmem : (tag, Tree.text word) ∈ es.filter (·.1 = tag) := List.mem_filter.2 ⟨htag, decide_eq_true rfl⟩
  simp only [ofTree?, untie] at h
  split at h
  · rename_i hfilter
    rw [hfilter] at hmem ⊢
    rw [List.mem_singleton.1 hmem]
  · cases h

end Keys

/-! ### One edit and many -/

/-- Edits are made to what holds other values. -/
theorem Edit.containers {t t' : Tree} (h : Edit root shape t t') :
    (∃ items items', t = .array items ∧ t' = .array items') ∨ ∃ es es', t = .object es ∧ t' = .object es' := by
  induction h with
  | item => exact .inl ⟨_, _, rfl, rfl⟩
  | knot _ ih => exact ih
  | add | drop | field | case | form | tagged => exact .inr ⟨_, _, rfl, rfl⟩

theorem Edit.objects {t t' : Tree} (h : Edit root (.record fields strict) t t') :
    ∃ es es', t = .object es ∧ t' = .object es' := by
  cases h <;> exact ⟨_, _, rfl, rfl⟩

theorem Edit.fieldOfTree? {t t' : Tree} (h : Edit root shape t t') (f : RecordField Shape) :
    fieldOfTree? root m f t = ofTree? root m f.shape t ∧ fieldOfTree? root m f t' = ofTree? root m f.shape t' := by
  rcases h.containers with ⟨_, _, rfl, rfl⟩ | ⟨_, _, rfl, rfl⟩ <;> simp [Shape.fieldOfTree?]

theorem Edit.ofTree?_knot {t t' : Tree} (h : Edit root shape t t') :
    ofTree? root m .knot t = ofTree? root m root t ∧ ofTree? root m .knot t' = ofTree? root m root t' := by
  rcases h.containers with ⟨_, _, rfl, rfl⟩ | ⟨_, _, rfl, rfl⟩
  · exact ⟨ofTree?_knot_array _, ofTree?_knot_array _⟩
  · exact ⟨ofTree?_knot_object _, ofTree?_knot_object _⟩

theorem ofItems?_replace {before after : List Tree} {t t' : Tree} {js : List Json}
    (h : ∀ j, ofTree? root m shape t = some j → ofTree? root m shape t' = some j)
    (hitems : ofItems? root m shape (before ++ t :: after) = some js) :
    ofItems? root m shape (before ++ t' :: after) = some js := by
  induction before generalizing js with
  | nil =>
    simp only [List.nil_append, ofItems?, Option.bind_eq_bind, Option.bind_eq_some_iff] at hitems ⊢
    obtain ⟨j, hj, hrest⟩ := hitems
    exact ⟨j, h j hj, hrest⟩
  | cons first before ih =>
    simp only [List.cons_append, ofItems?, Option.bind_eq_bind, Option.bind_eq_some_iff] at hitems ⊢
    obtain ⟨j, hj, js, hrest, hjs⟩ := hitems
    exact ⟨j, hj, js, ih hrest, hjs⟩

/-- One edit makes no difference to what is read. -/
theorem Coherent.ofTree?_edit (hroot : Coherent root root) {t t' : Tree} (h : Edit root shape t t')
    (hshape : Coherent root shape) {j : Json} (hj : ofTree? root m shape t = some j) :
    ofTree? root m shape t' = some j := by
  induction h generalizing m j with
  | add before after t hkey =>
    rw [ofTree?_record] at hj ⊢
    rwa [ofEntries?_add hkey]
  | drop before after hf hdefault =>
    cases hshape with | record hnames hinner hdefaults =>
    rw [ofTree?_record] at hj ⊢
    obtain ⟨js, hjs, rfl⟩ := Option.map_eq_some_iff.1 hj
    obtain ⟨found, hfound, hcomplete⟩ := Option.bind_eq_some_iff.1 hjs
    obtain ⟨found₁, d, found₂, rfl, hd, hdropped, -⟩ := ofEntries?_split (find?_of_nodup hnames hf) hfound
    -- what was found is the default, since that is read as itself
    rw [hdefaults _ hf _ hdefault m] at hd
    cases hd
    rw [hdropped, Option.bind_some, complete?_drop hnames hf hdefault (keys_of_ofEntries? hfound).1, hcomplete]
    rfl
  | field before after hf hedit ih =>
    cases hshape with | record hnames hinner hdefaults =>
    rw [ofTree?_record] at hj ⊢
    obtain ⟨js, hjs, rfl⟩ := Option.map_eq_some_iff.1 hj
    obtain ⟨found, hfound, hcomplete⟩ := Option.bind_eq_some_iff.1 hjs
    obtain ⟨_, d, _, -, hd, -, hreplaced⟩ := ofEntries?_split (find?_of_nodup hnames hf) hfound
    rw [(hedit.fieldOfTree? _).1] at hd
    rw [hreplaced _ ((hedit.fieldOfTree? _).2.trans (ih (hinner _ hf) hd)), Option.bind_some, hcomplete]
    rfl
  | item before after hedit ih =>
    cases hshape with | list hitem =>
    obtain ⟨js, hjs, rfl⟩ := Option.map_eq_some_iff.1 hj
    exact Option.map_eq_some_iff.2 ⟨js, ofItems?_replace (fun _ => ih hitem) hjs, rfl⟩
  | case hkey hedit ih =>
    cases hshape with | variant hkeys hinner hrecords =>
    obtain ⟨hwords, hcase⟩ := find?_of_variant_keys hkeys hkey
    rw [ofTree?_case hwords hcase] at hj ⊢
    obtain ⟨inner, hread, rfl⟩ := Option.map_eq_some_iff.1 hj
    rw [ih (hinner _ hkey) hread]
    rfl
  | form hkey hedit ih =>
    cases hshape with | variant hkeys hinner hrecords =>
    obtain ⟨hwords, hcase, hform⟩ := find?_of_form_keys hkeys hkey
    obtain ⟨es, es', rfl, rfl⟩ := hedit.objects
    rw [ofTree?_form hwords hcase hform] at hj ⊢
    obtain ⟨inner, hread, rfl⟩ := Option.map_eq_some_iff.1 hj
    rw [ih (hrecords _ hkey) hread]
    rfl
  | tagged hword htag htags hedit ih =>
    cases hshape with | tagged hkeys hapart hrecords =>
    have hform := find?_of_nodup hkeys hword
    have hes := filter_tag_of_ofTree? hj htag
    rw [ofTree?_tagged hes hform] at hj
    rw [ofTree?_tagged (htags.trans hes) hform]
    obtain ⟨js, hjs, rfl⟩ := Option.map_eq_some_iff.1 hj
    have hrecord := ih (m := .part) (j := .object js) (hrecords _ hword) (by rw [ofTree?_record, hjs]; rfl)
    rw [ofTree?_record] at hrecord
    obtain ⟨js', hjs', heq⟩ := Option.map_eq_some_iff.1 hrecord
    cases heq
    rw [hjs']
    rfl
  | knot hedit ih =>
    rw [hedit.ofTree?_knot.1] at hj
    rw [hedit.ofTree?_knot.2]
    exact ih hroot hj

/-- Any number of edits make no difference to what is read. -/
theorem Coherent.ofTree?_edits (hroot : Coherent root root) (hshape : Coherent root shape) {t t' : Tree}
    (h : Relation.ReflTransGen (Edit root shape) t t') {j : Json} (hj : ofTree? root m shape t = some j) :
    ofTree? root m shape t' = some j := by
  induction h with
  | refl => exact hj
  | tail _ hedit ih => exact hroot.ofTree?_edit hedit hshape ih

end Exonym.Shape
