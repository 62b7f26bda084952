import Exonym.Format.Output
import Exonym.Proofs.Json.Reading
import Exonym.Proofs.Json.Writing
import Exonym.Sample.Gallery

/-!
# The loader format

Every type of the loader format is written as a value of its shape, with its fields in their order, and every such shape
is coherent. Both are told of one type after the other, from those of the fields.

Main statements:

* `TypeRef.reads`, `TypeSymbol.reads`: a reference or a type is read as it was written.
* `LoaderInput.ofTree?_edited`: an input is read back from what is written, whatever fields that nobody knows were put
  in and whatever defaults were left out, be it from the value or from a text of it.
* `LoaderInput.ofText_render`: an input is read back from the text that is written of it.
-/

namespace Exonym

open Shape

variable {root : Shape}

namespace TypeId

@[simp] theorem coherent_shape : Coherent root shape := by simp [shape]

@[simp] theorem reads (id : TypeId) : Reads root shape id.toJson :=
  .record (by simp) (by simp)

end TypeId

namespace MemberId

@[simp] theorem coherent_shape : Coherent root shape := by simp [shape]

@[simp] theorem reads (id : MemberId) : Reads root shape id.toJson :=
  .record (by simp) (by simp [fieldReads_optional])

end MemberId

namespace SymbolId

@[simp] theorem coherent_ownerShape : Coherent root ownerShape := by simp [ownerShape]

@[simp] theorem reads_owner (id : SymbolId) : Reads root ownerShape id.ownerToJson := by
  cases id with
  | type id => exact .case (by simp) rfl id.reads
  | member id => exact .case (by simp) rfl id.reads

end SymbolId

namespace TypeRef

@[simp] theorem coherent_shape : Coherent root shape := by simp [shape]

mutual

@[simp] theorem reads : ∀ r : TypeRef, Reads shape .knot r.toJson
  | .named target args v => by
    have hargs : Reads shape (.list .knot) (.array (toJsonAll args)) := .list (readsAll args)
    exact .knot (.tagged (by simp) (by simp [hargs]) rfl (by simp))
  | .param key name cs => by
    have hconstraints : Reads shape (.list .knot) (.array (toJsonAll cs)) := .list (readsAll cs)
    exact .knot (.tagged (by simp) (by simp [hconstraints]) rfl (by simp))
  | .array e rank => .knot (.tagged (by simp) (by simp [reads e]) rfl (by simp))
  | .pointer p depth => .knot (.tagged (by simp) (by simp [reads p]) rfl (by simp))
  | .byRef r => .knot (.tagged (by simp) (by simp [reads r]) rfl (by simp))
  | .nested d name => .knot (.tagged (by simp) (by simp [reads d]) rfl (by simp))

theorem readsAll : ∀ rs : List TypeRef, ∀ j ∈ toJsonAll rs, Reads shape .knot j
  | [] => by simp [toJsonAll]
  | r :: rest => List.forall_mem_cons.2 ⟨reads r, readsAll rest⟩

end

end TypeRef

/-! ## Words -/

/-- A word that stands for something is read as itself. -/
theorem Shape.Reads.oneOf {α : Type} {words : List (String × α)} {s : String} {a : α}
    (h : Json.choice? words (.text s) = some a) : Reads root (.oneOf words) (.text s) := by
  obtain ⟨entry, hfind, -⟩ := Option.map_eq_some_iff.1 (h : (words.find? (·.1 = s)).map (·.2) = some a)
  have hs : entry.1 = s := by simpa using List.find?_some hfind
  exact reads_choice_iff.2 (List.mem_map.2 ⟨entry, List.mem_of_find?_eq_some hfind, hs⟩)

@[simp] theorem Accessibility.reads (a : Accessibility) : Reads root (.oneOf words) (.text a.text) :=
  .oneOf a.choice?_text

@[simp] theorem Placement.reads (p : Placement) : Reads root (.oneOf words) (.text p.text) :=
  .oneOf p.choice?_text

@[simp] theorem Provenance.reads (p : Provenance) : Reads root (.oneOf words) (.text p.text) :=
  .oneOf p.choice?_text

@[simp] theorem Passing.reads (p : Passing) : Reads root (.oneOf words) (.text p.text) :=
  .oneOf p.choice?_text

@[simp] theorem TypeKind.reads (k : TypeKind) : Reads root (.oneOf words) (.text k.text) :=
  .oneOf k.choice?_text

/-! ## Members -/

namespace TypeParameter

@[simp] theorem coherent_shape : Coherent TypeRef.shape shape := by simp [shape]

@[simp] theorem reads (p : TypeParameter) : Reads TypeRef.shape shape p.toJson :=
  .record (by simp) (by simp [Reads.ofList])

end TypeParameter

@[simp] theorem fieldReads_text? (name : String) (o : Option String) :
    FieldReads root (Shape.optional name .text) (.ofText? o) :=
  fieldReads_optional reads_text

namespace MemberInfo

@[simp] theorem coherent_shape : Coherent TypeRef.shape shape := by
  simp [shape, Shape.oneOf, Accessibility.words, Placement.words, Provenance.words]

@[simp] theorem reads (i : MemberInfo) : Reads TypeRef.shape shape i.toJson :=
  .record (by simp) (by simp [fieldReads_optional])

end MemberInfo

namespace Parameter

@[simp] theorem coherent_shape : Coherent TypeRef.shape shape := by simp [shape, Shape.oneOf, Passing.words]

@[simp] theorem reads (p : Parameter) : Reads TypeRef.shape shape p.toJson :=
  .record (by simp) (by simp)

end Parameter

namespace Method

@[simp] theorem coherent_shape : Coherent TypeRef.shape shape := by simp [shape]

@[simp] theorem reads (x : Method) : Reads TypeRef.shape shape x.toJson :=
  .record (by simp) (by simp [Reads.ofList])

end Method

namespace Property

@[simp] theorem coherent_shape : Coherent TypeRef.shape shape := by simp [shape]

@[simp] theorem reads (x : Property) : Reads TypeRef.shape shape x.toJson :=
  .record (by simp) (by simp [Reads.ofList])

end Property

namespace Field

@[simp] theorem coherent_shape : Coherent TypeRef.shape shape := by simp [shape]

@[simp] theorem reads (x : Field) : Reads TypeRef.shape shape x.toJson :=
  .record (by simp) (by simp)

end Field

namespace Event

@[simp] theorem coherent_shape : Coherent TypeRef.shape shape := by simp [shape]

@[simp] theorem reads (x : Event) : Reads TypeRef.shape shape x.toJson :=
  .record (by simp) (by simp)

end Event

namespace Constructor

@[simp] theorem coherent_shape : Coherent TypeRef.shape shape := by simp [shape]

@[simp] theorem reads (x : Constructor) : Reads TypeRef.shape shape x.toJson :=
  .record (by simp) (by simp [Reads.ofList])

end Constructor

namespace Members

@[simp] theorem coherent_shape : Coherent TypeRef.shape shape := by simp [shape]

@[simp] theorem reads (m : Members) : Reads TypeRef.shape shape m.toJson :=
  .record (by simp) (by simp [Reads.ofList])

end Members

/-! ## Types -/

namespace TypeFlags

@[simp] theorem coherent_shape : Coherent root shape := by simp [shape]

@[simp] theorem reads (f : TypeFlags) : Reads root shape f.toJson :=
  .record (by simp) (by simp)

end TypeFlags

namespace Origin

@[simp] theorem coherent_shape : Coherent root shape := by simp [shape]

@[simp] theorem reads (o : Origin) : Reads root shape o.toJson := by
  cases o with
  | loaded => exact .word (by simp)
  | synthesized on => exact .form (by simp) rfl rfl (.record (by simp) (by simp))

end Origin

namespace View

@[simp] theorem coherent_shape : Coherent TypeRef.shape shape := by simp [shape]

@[simp] theorem reads (v : View) : Reads TypeRef.shape shape v.toJson :=
  .record (by simp) (by simp [Reads.ofList])

end View

namespace TypeSymbol

@[simp] theorem coherent_shape : Coherent TypeRef.shape shape := by
  have horigin : Reads TypeRef.shape Origin.shape (.text "Loaded") := Origin.reads .loaded
  simp [shape, Shape.oneOf, TypeKind.words, Accessibility.words, horigin]

@[simp] theorem reads (t : TypeSymbol) : Reads TypeRef.shape shape t.toJson :=
  .record (by simp) (by simp [Reads.ofList, fieldReads_optional])

end TypeSymbol

/-! ## Inputs -/

namespace LoaderInput

/-- Reads an input that was read as a tree before. -/
def ofTree? (t : Tree) : Option LoaderInput :=
  (Shape.ofTree? TypeRef.shape .whole shape t).bind ofJson?

theorem coherent_shape : Coherent TypeRef.shape shape := by simp [shape]

theorem reads (i : LoaderInput) : Reads TypeRef.shape shape i.toJson :=
  .record (by simp) (by simp [Reads.ofList])

theorem ofTree?_toJson (i : LoaderInput) : ofTree? (.ofJson i.toJson) = some i := by
  rw [ofTree?, i.reads .whole, Option.bind_some, ofJson?_toJson]

/-- An input that its value gives is read from every text of the value. -/
theorem ofText_of_ofTree? {t : Tree} {i : LoaderInput} (hi : ofTree? t = some i) {text : String}
    (ht : Tree.read? text = some t) : ofText text = .ok i := by
  obtain ⟨j, hj, hread⟩ := Option.bind_eq_some_iff.1 hi
  simp only [ofText, readText_of_read? TypeRef.coherent_shape coherent_shape ht hj, bind, Except.bind, hread]

/-- An input that is written is read back, and so it is after any number of edits, from the value and from every text of
the value. -/
theorem ofTree?_edited (i : LoaderInput) : ofTree? (.ofJson i.toJson) = some i ∧
    ∀ t, Relation.ReflTransGen (Edit TypeRef.shape shape) (.ofJson i.toJson) t →
      ofTree? t = some i ∧ ∀ text, Tree.read? text = some t → ofText text = .ok i := by
  refine ⟨i.ofTree?_toJson, fun t h => ?_⟩
  have hread := TypeRef.coherent_shape.ofTree?_edits coherent_shape h (i.reads .whole)
  have hi : ofTree? t = some i := by rw [ofTree?, hread, Option.bind_some, ofJson?_toJson]
  exact ⟨hi, fun _ => ofText_of_ofTree? hi⟩

/-- An input that is written as text is read back, in whatever layout it is written. -/
theorem ofText_render (i : LoaderInput) (h : i.toJson.Readable Scan.maxDepth) (l : Json.Layout) :
    ofText (i.toJson.render l 0) = .ok i :=
  ofText_of_ofTree? i.ofTree?_toJson (Tree.read?_render h l)

/-- The information about the property `Count` of a class. -/
def countInfo : MemberInfo := .declared ⟨"app", "App.Bag", "Count", "", none⟩ 0

/-- A class with one property. -/
def bag : LoaderInput :=
  ⟨[{ TypeSymbol.ofKind ⟨"app", "App.Bag"⟩ .classType with
    members := { Members.empty with properties := [⟨countInfo, Gallery.system "Int32", [], true, false⟩] } }]⟩

/-- The class with its property given by these entries. -/
def bagWith (property : List (String × Tree)) : Tree :=
  .object [("types", .array [.object [
    ("stable_id", .object [("module", .text "app"), ("full_name", .text "App.Bag")]), ("kind", .text "Class"),
    ("accessibility", .text "Public"), ("generic_parameters", .array []), ("base_type", .null),
    ("interfaces", .array []),
    ("members", .object [("methods", .array []), ("properties", .array [.object property]), ("fields", .array []),
      ("events", .array []), ("constructors", .array [])]),
    ("nested_types", .array []), ("declaring_type", .null), ("flags", .ofJson TypeFlags.none.toJson),
    ("origin", .text "Loaded"), ("views", .array []), ("diamond_base", .null), ("final_name", .null)]])]

theorem edit_bagWith {property property' : List (String × Tree)}
    (h : Edit TypeRef.shape Property.shape (.object property) (.object property')) :
    Edit TypeRef.shape shape (bagWith property) (bagWith property') := by
  refine .field [] [] (f := required "types" (.list TypeSymbol.shape)) (by simp) (.item [] [] ?_)
  refine .field [_, _, _, _, _, _] [_, _, _, _, _, _, _]
    (f := defaulted "members" Members.shape Members.empty.toJson) (by simp) ?_
  exact .field [_] [_, _, _] (f := defaulted "properties" (.list Property.shape) (.array [])) (by simp)
    (.item [] [] h)

/-- The property loses the getter that it has, and its type gets a note. An input without types gets a note, too, and is
read from its text. -/
theorem ofTree?_edited_bag :
    let type : List (String × Tree) := [("kind", .text "Named"), ("module", .text "core"),
      ("namespace", .text "System"), ("name", .text "Int32"), ("arity", .int 0), ("type_args", .array []),
      ("is_value_type", .bool false)]
    let t := bagWith [("info", .ofJson countInfo.toJson),
      ("property_type", .object (("note", .text "a word") :: type)), ("index_parameters", .array []),
      ("has_setter", .bool false)]
    let noted : Tree := .object [("note", .text "a word"), ("types", .array [])]
    let text := "\x7b\"note\": \"a word\", \"types\": []\x7d"
    Relation.ReflTransGen (Edit TypeRef.shape shape) (.ofJson bag.toJson) t ∧ ofTree? (.ofJson bag.toJson) = some bag ∧
      ofTree? t = some bag ∧ Relation.ReflTransGen (Edit TypeRef.shape shape) (.ofJson (mk []).toJson) noted ∧
      Tree.read? text = some noted ∧ ofText text = .ok ⟨[]⟩ := by
  intro type t noted text
  have hnote : Edit TypeRef.shape TypeRef.shape (.object type) (.object (("note", .text "a word") :: type)) :=
    .tagged List.mem_cons_self (by simp [type]) rfl (.add [] type (.text "a word") (by simp))
  have hedits : Relation.ReflTransGen (Edit TypeRef.shape shape) (.ofJson bag.toJson) t := by
    refine .head (edit_bagWith (.drop [_, _, _] [_] (f := defaulted "has_getter" .flag (.bool true)) (by simp) rfl)) ?_
    exact .single (edit_bagWith (.field [_] [_, _] (f := required "property_type" .knot) (by simp) (.knot hnote)))
  have hnoted : Relation.ReflTransGen (Edit TypeRef.shape shape) (.ofJson (mk []).toJson) noted :=
    .single (.add [] [_] (.text "a word") (by simp))
  have htext : Tree.read? text = some noted := by
    refine Tree.read?_eq_some_iff.2 ⟨[], ?_, rfl⟩
    simp only [text, String.reduceToList]
    rfl
  have h := bag.ofTree?_edited
  exact ⟨hedits, h.1, (h.2 t hedits).1, hnoted, htext, ((mk []).ofTree?_edited.2 noted hnoted).2 text htext⟩

end LoaderInput

end Exonym
