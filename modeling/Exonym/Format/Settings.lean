import Exonym.Format.Identity
import Exonym.Settings

/-!
# The written form of settings

Every setting may be left out; a setting that does not exist is refused.

Main statements:

* `Settings.ofJson?_toJson`: settings that are written are read back.
-/

namespace Exonym

open Shape

namespace NameStyle

def words : List (String × NameStyle) :=
  [("preserve", .preserve), ("camel_case", .camelCase), ("pascal_case", .pascalCase)]

def text : NameStyle → String
  | .preserve => "preserve"
  | .camelCase => "camel_case"
  | .pascalCase => "pascal_case"

def ofJson? (j : Json) : Option NameStyle :=
  j.text?.bind fun s => (words.find? (·.1 = s)).map (·.2)

@[simp] theorem ofJson?_text (s : NameStyle) : ofJson? (.text s.text) = some s := by
  cases s <;> rfl

end NameStyle

@[simp] theorem Json.text?_text (s : String) : text? (.text s) = some s := rfl

namespace Overrides

def entryOfJson? (field : String × Json) : Option (String × String) :=
  field.2.text?.map fun value => (field.1, value)

def toJson (o : Overrides) : Json :=
  .object (o.entries.map fun e => (e.1, .text e.2))

def ofJson? : Json → Option Overrides
  | .object fields => (fields.mapM entryOfJson?).map ofList
  | _ => none

@[simp] theorem ofJson?_toJson (o : Overrides) : ofJson? o.toJson = some o := by
  have h : ∀ entries : List (String × String),
      (entries.map fun e => (e.1, Json.text e.2)).mapM entryOfJson? = some entries := by
    intro entries
    induction entries with
    | nil => rfl
    | cons e rest ih =>
      rw [List.map_cons, List.mapM_cons, ih]
      rfl
  simp only [toJson, ofJson?, h, Option.map_some, ofList_entries]

end Overrides

namespace NameSettings

def shape : Shape :=
  .record [defaulted "member_style" (.choice (NameStyle.words.map (·.1))) (.text "preserve"),
    defaulted "type_style" (.choice (NameStyle.words.map (·.1))) (.text "preserve"),
    defaulted "overrides" .dictionary (.object []),
    defaulted "extra_reserved_words" (.list .text) (.array []),
    defaulted "max_suffix_attempts" .number (.int 10000)] true

def toJson (s : NameSettings) : Json :=
  .object [("member_style", .text s.memberStyle.text), ("type_style", .text s.typeStyle.text),
    ("overrides", s.overrides.toJson), ("extra_reserved_words", .ofList Json.text s.extraReservedWords),
    ("max_suffix_attempts", .ofWord s.maxSuffixAttempts)]

def ofJson? : Json → Option NameSettings
  | .object [(_, memberStyle), (_, typeStyle), (_, overrides), (_, extraReservedWords),
      (_, maxSuffixAttempts)] => do
    return ⟨← NameStyle.ofJson? memberStyle, ← NameStyle.ofJson? typeStyle, ← Overrides.ofJson? overrides,
      ← extraReservedWords.list? Json.text?, ← maxSuffixAttempts.word?⟩
  | _ => none

@[simp] theorem ofJson?_toJson (s : NameSettings) : ofJson? s.toJson = some s := by
  have h : (Json.ofList Json.text s.extraReservedWords).list? Json.text? = some s.extraReservedWords :=
    Json.list?_ofList Json.text?_text _
  simp [toJson, ofJson?, h]

end NameSettings

namespace Settings

def interfaceShape : Shape :=
  .record [defaulted "synthesize_diamonds" .flag (.bool true)] true

def shape : Shape :=
  .record [
    defaulted "interfaces" interfaceShape (.object [("synthesize_diamonds", .bool true)]),
    defaulted "rename" NameSettings.shape NameSettings.default.toJson] true

def toJson (s : Settings) : Json :=
  .object [("interfaces", .object [("synthesize_diamonds", .bool s.interfaces.synthesizeDiamonds)]),
    ("rename", s.naming.toJson)]

def ofJson? : Json → Option Settings
  | .object [(_, .object [(_, .bool synthesizeDiamonds)]), (_, naming)] => do
    return ⟨⟨synthesizeDiamonds⟩, ← NameSettings.ofJson? naming⟩
  | _ => none

theorem ofJson?_toJson (s : Settings) : ofJson? s.toJson = some s := by
  simp [toJson, ofJson?]

end Settings

end Exonym
