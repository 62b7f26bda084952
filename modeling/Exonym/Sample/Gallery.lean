import Exonym.Sample.Draft

/-!
# A gallery of small libraries

Each sample shows one of the difficulties of naming: interfaces that form no chain, members that differ in their
return types or in modifiers alone, explicit implementations, and names that are reserved words.
-/

namespace Exonym.Gallery

/-- A type of the system library. -/
def system (name : String) : TypeRef := .plain "core" "System" name

/-- A type of the sample library. -/
def app («namespace» name : String) : TypeRef := .plain "app" «namespace» name

/-- A generic type of the sample library. -/
def ofApp (name : String) (arg : TypeRef) : TypeRef := .generic "app" "App" name [arg]

/-- The parameter of a generic type of the sample library. -/
def parameterOf (fullName : String) : TypeRef := .param ⟨.type ⟨"app", fullName⟩, 0⟩ "T" []

def draft (fullName : String) (kind : TypeKind) : TypeDraft := .start "app" fullName kind

/-- Two interfaces of which neither inherits from the other. -/
def pair : List TypeSymbol := [
  TypeDraft.systemInterface "IEquatable" 1,
  TypeDraft.systemInterface "IFormattable" 0,
  (draft "App.Pair" .structType
    |>.implements (.generic "core" "System" "IEquatable" [app "App" "Pair"])
    |>.implements (system "IFormattable")
    |>.constructor []
    |>.method "Swap" [] (app "App" "Pair") id).type]

/-- A property, and one of the same name that an interface wants to have another type. -/
def boxed : List TypeSymbol := [
  (draft "App.Box" .classType
    |>.property "Value" (system "Int32") id
    |>.property "Value" (system "Object") fun info =>
      { info with explicitInterface := some (app "App" "IBox") }).type]

/-- Two methods that differ in a modifier alone. -/
def reader : List TypeSymbol := [
  (draft "App.Reader" .classType
    |>.method "Read" [⟨"value", system "Int32", .byValue, false⟩] (system "Void") id
    |>.method "Read" [⟨"value", .byRef (system "Int32"), .ref, false⟩] (system "Void") id).type]

/-- A method, and an explicit implementation of the same name. -/
def store : List TypeSymbol := [
  (draft "App.Store" .classType
    |>.method "Dispose" [] (system "Void") id
    |>.explicitMethod (system "IDisposable") "Dispose" (system "Void")).type]

/-- Members with reserved names. -/
def keywords : List TypeSymbol := [
  (draft "App.Query" .classType
    |>.method "delete" [] (system "Void") id
    |>.property "class" (system "String") id
    |>.field "new" (system "Int32")).type]

/-- All of the above, with names that meet and types that mention those of other namespaces. -/
def everything : List TypeSymbol :=
  pair ++ boxed ++ reader ++ store ++ keywords ++ [
    (draft "App.ICollection" .interface).type,
    (draft "App.IList" .interface |>.implements (app "App" "ICollection")).type,
    (draft "App.Bag" .classType
      |>.implements (app "App" "IList")
      |>.implements (app "App" "ICollection")
      |>.field "Value" (system "Int32")
      |>.method "Value" [] (system "Void") id
      |>.property "Value" (system "String") id).type,
    (draft "App.Model.Item" .classType |>.property "Label" (system "String") id).type,
    (draft "App.Ui.Item" .classType).type,
    (draft "App.Ui.Panel" .classType
      |>.property "Selected" (app "App.Model" "Item") id
      |>.property "Bag" (app "App" "Bag") id).type]

/-- The samples by their names. -/
def samples : List (String × List TypeSymbol) :=
  [("pair", pair), ("boxed", boxed), ("reader", reader), ("store", store), ("keywords", keywords),
    ("everything", everything)]

end Exonym.Gallery
