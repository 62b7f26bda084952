import Exonym.Format.Settings
import Exonym.Toml.Document

/-!
# Settings files

Settings are kept in a file of three tables. Every setting may be left out and then has its default; a setting that
does not exist is an error.
-/

namespace Exonym.Settings

/-- Why there are no settings. -/
inductive LoadError where
  /-- The text is no settings file, or not one of these settings. -/
  | malformed
  /-- There is no such file. -/
  | unreadable (path : String)
  /-- The file with this name is malformed. -/
  | malformedFile (path : String)
  deriving DecidableEq, Repr

def LoadError.message : LoadError → String
  | .malformed => "invalid config"
  | .unreadable path => "cannot read config " ++ path
  | .malformedFile path => "invalid config " ++ path

/-- The settings that a document gives. -/
def ofDocument? (document : Tree) : Option Settings :=
  (Shape.ofTree? .knot .table shape document).bind ofJson?

/-- Reads settings from the text of a settings file. -/
def ofToml? (text : String) : Option Settings :=
  (Toml.Document.read? text).bind ofDocument?

def ofToml (text : String) : Except LoadError Settings :=
  match ofToml? text with
  | some s => .ok s
  | none => .error .malformed

/-- The statements of the file that all settings are written to. -/
def statements (s : Settings) : List Toml.Statement :=
  let set (key : String) (v : Toml.Value) : Toml.Statement := .assign ⟨[], key⟩ v
  [.table ⟨[], "interfaces"⟩,
    set "synthesize_diamonds" (.bool s.interfaces.synthesizeDiamonds),
    .table ⟨[], "rename"⟩,
    set "member_style" (.text s.naming.memberStyle.text),
    set "type_style" (.text s.naming.typeStyle.text),
    set "extra_reserved_words" (.array (s.naming.extraReservedWords.map .text)),
    set "max_suffix_attempts" (.int s.naming.maxSuffixAttempts.toNat),
    .table ⟨["rename"], "overrides"⟩] ++
    s.naming.overrides.entries.map fun (key, value) => set key (.text value)

/-- The text of the file that all settings are written to. -/
def toToml (s : Settings) : String :=
  .ofList (Toml.Statement.render s.statements)

end Exonym.Settings
