import Exonym.Format.TypeRef
import Exonym.Symbol

/-!
# The written form of types and members

This is the form in which a loader hands types over, and in which analysed types are written out. Only identities,
kinds, names and types have to be given; everything else has a default.

Main statements:

* `TypeSymbol.ofJson?_toJson`: a type that is written is read back, with all its members and views.
-/

namespace Exonym

open Shape

/-! ## Words -/

/-- Reads one of several words. -/
def Json.choice? {α : Type} (words : List (String × α)) (j : Json) : Option α :=
  j.text?.bind fun s => (words.find? (·.1 = s)).map (·.2)

namespace Accessibility

def words : List (String × Accessibility) :=
  [("Public", .public), ("Internal", .internal), ("Protected", .protected),
    ("ProtectedInternal", .protectedInternal), ("PrivateProtected", .privateProtected), ("Private", .private)]

def text : Accessibility → String
  | .public => "Public"
  | .internal => "Internal"
  | .protected => "Protected"
  | .protectedInternal => "ProtectedInternal"
  | .privateProtected => "PrivateProtected"
  | .private => "Private"

@[simp] theorem choice?_text (a : Accessibility) : Json.choice? words (.text a.text) = some a := by
  cases a <;> rfl

end Accessibility

namespace Placement

def words : List (String × Placement) :=
  [("ClassSurface", .classSurface), ("StaticSurface", .staticSurface), ("ViewOnly", .viewOnly),
    ("Omitted", .omitted)]

@[simp] theorem choice?_text (p : Placement) : Json.choice? words (.text p.text) = some p := by
  cases p <;> rfl

end Placement

namespace Provenance

def words : List (String × Provenance) :=
  [("Original", .declared), ("FromInterface", .fromInterface), ("Synthesized", .synthesized)]

def text : Provenance → String
  | .declared => "Original"
  | .fromInterface => "FromInterface"
  | .synthesized => "Synthesized"

@[simp] theorem choice?_text (p : Provenance) : Json.choice? words (.text p.text) = some p := by
  cases p <;> rfl

end Provenance

namespace MemberKind

def words : List (String × MemberKind) :=
  [("Method", .method), ("Property", .property), ("Field", .field), ("Event", .event),
    ("Constructor", .constructor)]

@[simp] theorem choice?_text (k : MemberKind) : Json.choice? words (.text k.text) = some k := by
  cases k <;> rfl

end MemberKind

namespace Passing

def words : List (String × Passing) :=
  [("None", .byValue), ("Ref", .ref), ("Out", .out), ("In", .inRef), ("Params", .params)]

def text : Passing → String
  | .byValue => "None"
  | .ref => "Ref"
  | .out => "Out"
  | .inRef => "In"
  | .params => "Params"

@[simp] theorem choice?_text (p : Passing) : Json.choice? words (.text p.text) = some p := by
  cases p <;> rfl

end Passing

namespace TypeKind

def words : List (String × TypeKind) :=
  [("Class", .classType), ("Struct", .structType), ("Interface", .interface), ("Enum", .enumType),
    ("Delegate", .delegate), ("StaticNamespace", .staticNamespace)]

def text : TypeKind → String
  | .classType => "Class"
  | .structType => "Struct"
  | .interface => "Interface"
  | .enumType => "Enum"
  | .delegate => "Delegate"
  | .staticNamespace => "StaticNamespace"

@[simp] theorem choice?_text (k : TypeKind) : Json.choice? words (.text k.text) = some k := by
  cases k <;> rfl

end TypeKind

/-- The shape of one of several words. -/
def Shape.oneOf {α : Type} (words : List (String × α)) : Shape :=
  .choice (words.map (·.1))

/-! ## Members -/

def TypeParameter.shape : Shape :=
  .record [required "name" .text, required "position" .number,
    defaulted "constraints" (.list .knot) (.array [])] false

def TypeParameter.toJson (p : TypeParameter) : Json :=
  .object [("name", .text p.name), ("position", .ofWord p.position),
    ("constraints", .ofList TypeRef.toJson p.constraints)]

def TypeParameter.ofJson? : Json → Option TypeParameter
  | .object [(_, .text name), (_, position), (_, constraints)] => do
    return ⟨name, ← position.word?, ← constraints.list? TypeRef.ofJson?⟩
  | _ => none

def MemberInfo.shape : Shape :=
  .record [required "stable_id" MemberId.shape, required "name" .text,
    defaulted "accessibility" (.oneOf Accessibility.words) (.text "Public"),
    defaulted "is_static" .flag (.bool false),
    defaulted "emit_scope" (.oneOf Placement.words) (.text "ClassSurface"),
    defaulted "provenance" (.oneOf Provenance.words) (.text "Original"),
    Shape.optional "explicit_interface" .knot, Shape.optional "source_interface" TypeId.shape,
    defaulted "declaration_order" .number (.int 0), Shape.optional "final_name" .text] false

def MemberInfo.toJson (i : MemberInfo) : Json :=
  .object [("stable_id", i.id.toJson), ("name", .text i.name), ("accessibility", .text i.accessibility.text),
    ("is_static", .bool i.isStatic), ("emit_scope", .text i.placement.text),
    ("provenance", .text i.provenance.text),
    ("explicit_interface", .ofOption TypeRef.toJson i.explicitInterface),
    ("source_interface", .ofOption TypeId.toJson i.sourceInterface),
    ("declaration_order", .ofWord i.declarationOrder), ("final_name", .ofText? i.finalName)]

def MemberInfo.ofJson? : Json → Option MemberInfo
  | .object [(_, id), (_, .text name), (_, accessibility), (_, .bool isStatic), (_, placement), (_, provenance),
      (_, explicitInterface), (_, sourceInterface), (_, declarationOrder), (_, finalName)] => do
    return {
      id := ← MemberId.ofJson? id
      name := name
      accessibility := ← accessibility.choice? Accessibility.words
      isStatic := isStatic
      placement := ← placement.choice? Placement.words
      provenance := ← provenance.choice? Provenance.words
      explicitInterface := ← explicitInterface.optional? TypeRef.ofJson?
      sourceInterface := ← sourceInterface.optional? TypeId.ofJson?
      declarationOrder := ← declarationOrder.word?
      finalName := ← finalName.optional? Json.text? }
  | _ => none

def Parameter.shape : Shape :=
  .record [required "name" .text, required "ty" .knot, defaulted "modifier" (.oneOf Passing.words) (.text "None"),
    defaulted "is_optional" .flag (.bool false)] false

def Parameter.toJson (p : Parameter) : Json :=
  .object [("name", .text p.name), ("ty", p.type.toJson), ("modifier", .text p.passing.text),
    ("is_optional", .bool p.isOptional)]

def Parameter.ofJson? : Json → Option Parameter
  | .object [(_, .text name), (_, type), (_, passing), (_, .bool isOptional)] => do
    return ⟨name, ← TypeRef.ofJson? type, ← passing.choice? Passing.words, isOptional⟩
  | _ => none

def Method.shape : Shape :=
  .record [required "info" MemberInfo.shape,
    defaulted "generic_parameters" (.list TypeParameter.shape) (.array []),
    defaulted "parameters" (.list Parameter.shape) (.array []), required "return_type" .knot,
    defaulted "is_abstract" .flag (.bool false), defaulted "is_virtual" .flag (.bool false)] false

def Method.toJson (x : Method) : Json :=
  .object [("info", x.info.toJson), ("generic_parameters", .ofList TypeParameter.toJson x.typeParameters),
    ("parameters", .ofList Parameter.toJson x.parameters), ("return_type", x.returnType.toJson),
    ("is_abstract", .bool x.isAbstract), ("is_virtual", .bool x.isVirtual)]

def Method.ofJson? : Json → Option Method
  | .object [(_, info), (_, typeParameters), (_, parameters), (_, returnType), (_, .bool isAbstract),
      (_, .bool isVirtual)] => do
    return ⟨← MemberInfo.ofJson? info, ← typeParameters.list? TypeParameter.ofJson?,
      ← parameters.list? Parameter.ofJson?, ← TypeRef.ofJson? returnType, isAbstract, isVirtual⟩
  | _ => none

def Property.shape : Shape :=
  .record [required "info" MemberInfo.shape, required "property_type" .knot,
    defaulted "index_parameters" (.list Parameter.shape) (.array []),
    defaulted "has_getter" .flag (.bool true), defaulted "has_setter" .flag (.bool false)] false

def Property.toJson (x : Property) : Json :=
  .object [("info", x.info.toJson), ("property_type", x.type.toJson),
    ("index_parameters", .ofList Parameter.toJson x.indexParameters), ("has_getter", .bool x.hasGetter),
    ("has_setter", .bool x.hasSetter)]

def Property.ofJson? : Json → Option Property
  | .object [(_, info), (_, type), (_, indexParameters), (_, .bool hasGetter), (_, .bool hasSetter)] => do
    return ⟨← MemberInfo.ofJson? info, ← TypeRef.ofJson? type, ← indexParameters.list? Parameter.ofJson?,
      hasGetter, hasSetter⟩
  | _ => none

def Field.shape : Shape :=
  .record [required "info" MemberInfo.shape, required "field_type" .knot,
    defaulted "is_readonly" .flag (.bool false), defaulted "is_literal" .flag (.bool false)] false

def Field.toJson (x : Field) : Json :=
  .object [("info", x.info.toJson), ("field_type", x.type.toJson), ("is_readonly", .bool x.isReadonly),
    ("is_literal", .bool x.isLiteral)]

def Field.ofJson? : Json → Option Field
  | .object [(_, info), (_, type), (_, .bool isReadonly), (_, .bool isLiteral)] => do
    return ⟨← MemberInfo.ofJson? info, ← TypeRef.ofJson? type, isReadonly, isLiteral⟩
  | _ => none

def Event.shape : Shape :=
  .record [required "info" MemberInfo.shape, required "handler_type" .knot] false

def Event.toJson (x : Event) : Json :=
  .object [("info", x.info.toJson), ("handler_type", x.handlerType.toJson)]

def Event.ofJson? : Json → Option Event
  | .object [(_, info), (_, handlerType)] => do
    return ⟨← MemberInfo.ofJson? info, ← TypeRef.ofJson? handlerType⟩
  | _ => none

def Constructor.shape : Shape :=
  .record [required "info" MemberInfo.shape, defaulted "parameters" (.list Parameter.shape) (.array [])] false

def Constructor.toJson (x : Constructor) : Json :=
  .object [("info", x.info.toJson), ("parameters", .ofList Parameter.toJson x.parameters)]

def Constructor.ofJson? : Json → Option Constructor
  | .object [(_, info), (_, parameters)] => do
    return ⟨← MemberInfo.ofJson? info, ← parameters.list? Parameter.ofJson?⟩
  | _ => none

def Members.shape : Shape :=
  .record [defaulted "methods" (.list Method.shape) (.array []),
    defaulted "properties" (.list Property.shape) (.array []), defaulted "fields" (.list Field.shape) (.array []),
    defaulted "events" (.list Event.shape) (.array []),
    defaulted "constructors" (.list Constructor.shape) (.array [])] false

def Members.toJson (m : Members) : Json :=
  .object [("methods", .ofList Method.toJson m.methods), ("properties", .ofList Property.toJson m.properties),
    ("fields", .ofList Field.toJson m.fields), ("events", .ofList Event.toJson m.events),
    ("constructors", .ofList Constructor.toJson m.constructors)]

def Members.ofJson? : Json → Option Members
  | .object [(_, methods), (_, properties), (_, fields), (_, events), (_, constructors)] => do
    return ⟨← methods.list? Method.ofJson?, ← properties.list? Property.ofJson?, ← fields.list? Field.ofJson?,
      ← events.list? Event.ofJson?, ← constructors.list? Constructor.ofJson?⟩
  | _ => none

/-! ## Types -/

def TypeFlags.shape : Shape :=
  .record [defaulted "is_abstract" .flag (.bool false), defaulted "is_sealed" .flag (.bool false),
    defaulted "is_static" .flag (.bool false), defaulted "is_value_type" .flag (.bool false)] false

def TypeFlags.toJson (f : TypeFlags) : Json :=
  .object [("is_abstract", .bool f.isAbstract), ("is_sealed", .bool f.isSealed), ("is_static", .bool f.isStatic),
    ("is_value_type", .bool f.isValueType)]

def TypeFlags.ofJson? : Json → Option TypeFlags
  | .object [(_, .bool isAbstract), (_, .bool isSealed), (_, .bool isStatic), (_, .bool isValueType)] =>
    some ⟨isAbstract, isSealed, isStatic, isValueType⟩
  | _ => none

def Origin.shape : Shape :=
  .variant ["Loaded"] [] [("Synthesized", [required "from" TypeId.shape])]

def Origin.toJson : Origin → Json
  | .loaded => .text "Loaded"
  | .synthesized on => .object [("Synthesized", .object [("from", on.toJson)])]

def Origin.ofJson? : Json → Option Origin
  | .text "Loaded" => some .loaded
  | .object [("Synthesized", .object [("from", on)])] => (TypeId.ofJson? on).map .synthesized
  | _ => none

def View.shape : Shape :=
  .record [required "interface" .knot, required "interface_id" TypeId.shape,
    required "accessor_id" MemberId.shape, required "members" (.list MemberId.shape),
    Shape.optional "accessor_final_name" .text] false

def View.toJson (v : View) : Json :=
  .object [("interface", v.interface.toJson), ("interface_id", v.interfaceId.toJson),
    ("accessor_id", v.accessorId.toJson), ("members", .ofList MemberId.toJson v.members),
    ("accessor_final_name", .ofText? v.accessorName)]

def View.ofJson? : Json → Option View
  | .object [(_, interface), (_, interfaceId), (_, accessorId), (_, members), (_, accessorName)] => do
    return ⟨← TypeRef.ofJson? interface, ← TypeId.ofJson? interfaceId, ← MemberId.ofJson? accessorId,
      ← members.list? MemberId.ofJson?, ← accessorName.optional? Json.text?⟩
  | _ => none

def Alias.shape : Shape :=
  .record [required "alias_for" TypeId.shape, required "base_interface" TypeId.shape,
    required "members" (.list .knot)] false

def Alias.toJson (a : Alias) : Json :=
  .object [("alias_for", a.target.toJson), ("base_interface", a.base.toJson),
    ("members", .ofList TypeRef.toJson a.members)]

def Alias.ofJson? : Json → Option Alias
  | .object [(_, target), (_, base), (_, members)] => do
    return ⟨← TypeId.ofJson? target, ← TypeId.ofJson? base, ← members.list? TypeRef.ofJson?⟩
  | _ => none

def TypeSymbol.shape : Shape :=
  .record [required "stable_id" TypeId.shape, required "kind" (.oneOf TypeKind.words),
    defaulted "accessibility" (.oneOf Accessibility.words) (.text "Public"),
    defaulted "generic_parameters" (.list TypeParameter.shape) (.array []), Shape.optional "base_type" .knot,
    defaulted "interfaces" (.list .knot) (.array []), defaulted "members" Members.shape Members.empty.toJson,
    defaulted "nested_types" (.list TypeId.shape) (.array []), Shape.optional "declaring_type" TypeId.shape,
    defaulted "flags" TypeFlags.shape TypeFlags.none.toJson, defaulted "origin" Origin.shape (.text "Loaded"),
    defaulted "views" (.list View.shape) (.array []), Shape.optional "diamond_base" TypeId.shape,
    Shape.optional "final_name" .text] false

def TypeSymbol.toJson (t : TypeSymbol) : Json :=
  .object [("stable_id", t.id.toJson), ("kind", .text t.kind.text), ("accessibility", .text t.accessibility.text),
    ("generic_parameters", .ofList TypeParameter.toJson t.typeParameters),
    ("base_type", .ofOption TypeRef.toJson t.baseType), ("interfaces", .ofList TypeRef.toJson t.interfaces),
    ("members", t.members.toJson), ("nested_types", .ofList TypeId.toJson t.nestedTypes),
    ("declaring_type", .ofOption TypeId.toJson t.declaringType), ("flags", t.flags.toJson),
    ("origin", t.origin.toJson), ("views", .ofList View.toJson t.views),
    ("diamond_base", .ofOption TypeId.toJson t.diamondBase), ("final_name", .ofText? t.finalName)]

def TypeSymbol.ofJson? : Json → Option TypeSymbol
  | .object [(_, id), (_, kind), (_, accessibility), (_, typeParameters), (_, baseType), (_, interfaces),
      (_, members), (_, nestedTypes), (_, declaringType), (_, flags), (_, origin), (_, views), (_, diamondBase),
      (_, finalName)] => do
    return {
      id := ← TypeId.ofJson? id
      kind := ← kind.choice? TypeKind.words
      accessibility := ← accessibility.choice? Accessibility.words
      typeParameters := ← typeParameters.list? TypeParameter.ofJson?
      baseType := ← baseType.optional? TypeRef.ofJson?
      interfaces := ← interfaces.list? TypeRef.ofJson?
      members := ← Members.ofJson? members
      nestedTypes := ← nestedTypes.list? TypeId.ofJson?
      declaringType := ← declaringType.optional? TypeId.ofJson?
      flags := ← TypeFlags.ofJson? flags
      origin := ← Origin.ofJson? origin
      views := ← views.list? View.ofJson?
      diamondBase := ← diamondBase.optional? TypeId.ofJson?
      finalName := ← finalName.optional? Json.text? }
  | _ => none

/-! ## What is written is read back -/

theorem TypeRef.toJson_ne_null (r : TypeRef) : r.toJson ≠ .null := by
  cases r <;> simp [TypeRef.toJson]

@[simp] theorem TypeRef.optional_toJson (o : Option TypeRef) :
    (Json.ofOption TypeRef.toJson o).optional? TypeRef.ofJson? = some o :=
  Json.optional?_ofOption TypeRef.ofJson?_toJson TypeRef.toJson_ne_null o

@[simp] theorem TypeId.optional_toJson (o : Option TypeId) :
    (Json.ofOption TypeId.toJson o).optional? TypeId.ofJson? = some o :=
  Json.optional?_ofOption TypeId.ofJson?_toJson (by simp [TypeId.toJson]) o

@[simp] theorem Json.optional_text (o : Option String) : (Json.ofText? o).optional? Json.text? = some o :=
  by cases o <;> rfl

@[simp] theorem TypeParameter.ofJson?_toJson (p : TypeParameter) : ofJson? p.toJson = some p := by
  simp [toJson, ofJson?]

@[simp] theorem MemberInfo.ofJson?_toJson (i : MemberInfo) : ofJson? i.toJson = some i := by
  simp [toJson, ofJson?]

@[simp] theorem Parameter.ofJson?_toJson (p : Parameter) : ofJson? p.toJson = some p := by
  simp [toJson, ofJson?]

@[simp] theorem Method.ofJson?_toJson (x : Method) : ofJson? x.toJson = some x := by
  simp [toJson, ofJson?]

@[simp] theorem Property.ofJson?_toJson (x : Property) : ofJson? x.toJson = some x := by
  simp [toJson, ofJson?]

@[simp] theorem Field.ofJson?_toJson (x : Field) : ofJson? x.toJson = some x := by
  simp [toJson, ofJson?]

@[simp] theorem Event.ofJson?_toJson (x : Event) : ofJson? x.toJson = some x := by
  simp [toJson, ofJson?]

@[simp] theorem Constructor.ofJson?_toJson (x : Constructor) : ofJson? x.toJson = some x := by
  simp [toJson, ofJson?]

@[simp] theorem Members.ofJson?_toJson (m : Members) : ofJson? m.toJson = some m := by
  simp [toJson, ofJson?]

@[simp] theorem TypeFlags.ofJson?_toJson (f : TypeFlags) : ofJson? f.toJson = some f := rfl

@[simp] theorem Origin.ofJson?_toJson (o : Origin) : ofJson? o.toJson = some o := by
  cases o <;> simp [toJson, ofJson?]

@[simp] theorem View.ofJson?_toJson (v : View) : ofJson? v.toJson = some v := by
  simp [toJson, ofJson?]

@[simp] theorem Alias.ofJson?_toJson (a : Alias) : ofJson? a.toJson = some a := by
  simp [toJson, ofJson?]

theorem TypeSymbol.ofJson?_toJson (t : TypeSymbol) : ofJson? t.toJson = some t := by
  simp [toJson, ofJson?, Json.list?_ofList TypeId.ofJson?_toJson]

end Exonym
