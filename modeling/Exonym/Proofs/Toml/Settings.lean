import Exonym.Proofs.Json.Edits
import Exonym.Proofs.Toml.Statement
import Exonym.Settings.Toml

/-!
# Settings are read back from their file

The statements of a settings file put one entry after the other into the tables that its headings open. The last of
these holds the overrides; what stands before it is the same in every file but for the values.

Main statements:

* `Toml.Document.foldlM_add_texts`: assignments fill the table that is open.
* `Settings.ofStatements?_statements`: what the statements of settings amount to.
* `Settings.ofToml_toToml`: all settings are read back from the file that they are written to.
-/

namespace Exonym

namespace Toml

/-! ## Filling a table -/

namespace Entries

theorem alter_of_not_mem {key : String} {es : Entries} (h : key ∉ es.map (·.1)) (f : Option Node → Option Node) :
    alter key f es = (f none).map fun n => es ++ [(key, n)] := by
  induction es with
  | nil => rfl
  | cons e rest ih =>
    obtain ⟨hne, hrest⟩ : e.1 ≠ key ∧ key ∉ rest.map (·.1) := by simpa [eq_comm] using h
    rw [alter, if_neg hne, ih hrest]
    cases f none <;> rfl

end Entries

namespace Document

/-- The path leads to a table, and these are the entries around those of the table. -/
def LeadsTo (path : List String) (around : Entries → Entries) : Prop :=
  ∀ f es, Entries.within f path (around es) = (f es).map around

variable {path : List String} {around : Entries → Entries} (h : LeadsTo path around) {es : Entries}

include h

theorem add_assign {key : String} {v : Value} {t : Tree} (hv : v.toTree? = some t) (hkey : key ∉ es.map (·.1)) :
    add ⟨around es, path⟩ (.assign ⟨[], key⟩ v) = some ⟨around (es ++ [(key, .leaf t)]), path⟩ := by
  have hassign : Entries.assign key t [] es = some (es ++ [(key, .leaf t)]) := by
    rw [Entries.assign, Entries.alter_of_not_mem hkey]
    rfl
  simp [add, hv, h _ es, hassign]

/-- Assignments of texts put them into the table that is open, one after the other. -/
theorem foldlM_add_texts {entries : List (String × String)} (hkeys : (es.map (·.1) ++ entries.map (·.1)).Nodup) :
    (entries.map fun (key, value) => Statement.assign ⟨[], key⟩ (.text value)).foldlM add ⟨around es, path⟩ =
      some ⟨around (es ++ entries.map fun e => (e.1, .leaf (.text e.2))), path⟩ := by
  induction entries generalizing es with
  | nil => simp
  | cons e entries ih =>
    have hkey : e.1 ∉ es.map (·.1) := fun hmem => (List.nodup_append.1 hkeys).2.2 _ hmem _ List.mem_cons_self rfl
    have hrest := @ih (es ++ [(e.1, .leaf (.text e.2))]) (by simpa using hkeys)
    rw [List.map_cons, List.foldlM_cons, add_assign h (t := .text e.2) rfl hkey, Option.bind_eq_bind, Option.bind_some,
      hrest]
    simp

end Document

theorem itemsToTree?_texts (words : List String) : itemsToTree? (words.map .text) = some (words.map .text) := by
  induction words with
  | nil => rfl
  | cons word words ih => simp [itemsToTree?, Value.toTree?, ih]

theorem entriesToTree_texts (entries : List (String × String)) :
    entriesToTree (entries.map fun e => (e.1, .leaf (.text e.2))) = entries.map fun e => (e.1, .text e.2) := by
  induction entries with
  | nil => rfl
  | cons e rest ih => simp [entriesToTree, Node.toTree, ih]

end Toml

namespace Settings

open Toml

/-! ## The document -/

/-- The entries of a settings file around its overrides. -/
def aroundOverrides (s : Settings) (overrides : Entries) : Entries :=
  [("interfaces", .table .explicit [("synthesize_diamonds", .leaf (.bool s.interfaces.synthesizeDiamonds))]),
    ("rename", .table .explicit [("member_style", .leaf (.text s.naming.memberStyle.text)),
      ("type_style", .leaf (.text s.naming.typeStyle.text)),
      ("extra_reserved_words", .leaf (.array (s.naming.extraReservedWords.map .text))),
      ("max_suffix_attempts", .leaf (.int s.naming.maxSuffixAttempts.toNat)),
      ("overrides", .table .explicit overrides)])]

theorem leadsTo_overrides (s : Settings) : Document.LeadsTo ["rename", "overrides"] s.aroundOverrides := by
  intro f es
  simp [aroundOverrides, Entries.within, Entries.alter, Function.comp_def]
  rfl

/-- The table of names in the order in which it is written. -/
def writtenNaming (s : NameSettings) : Json :=
  .object [("member_style", .text s.memberStyle.text), ("type_style", .text s.typeStyle.text),
    ("extra_reserved_words", .ofList Json.text s.extraReservedWords),
    ("max_suffix_attempts", .ofWord s.maxSuffixAttempts), ("overrides", s.overrides.toJson)]

/-- What the statements of settings amount to. -/
def document (s : Settings) : Tree :=
  .object [("interfaces", .object [("synthesize_diamonds", .bool s.interfaces.synthesizeDiamonds)]),
    ("rename", .ofJson (writtenNaming s.naming))]

theorem entriesToTree_aroundOverrides (s : Settings) :
    .object (entriesToTree (s.aroundOverrides (s.naming.overrides.entries.map fun e => (e.1, .leaf (.text e.2))))) =
      s.document := by
  simp [aroundOverrides, document, writtenNaming, entriesToTree, Node.toTree, entriesToTree_texts, Overrides.toJson,
    Tree.ofJson, Tree.ofFields, Tree.ofFields_eq_map, Tree.ofItems_eq_map, Json.ofList, Json.ofWord, Function.comp_def]

/-- The statements before the overrides give the entries around them, and leave their table open. -/
theorem foldlM_add_tables (s : Settings) : List.foldlM Document.add Document.empty [.table ⟨[], "interfaces"⟩,
      .assign ⟨[], "synthesize_diamonds"⟩ (.bool s.interfaces.synthesizeDiamonds), .table ⟨[], "rename"⟩,
      .assign ⟨[], "member_style"⟩ (.text s.naming.memberStyle.text),
      .assign ⟨[], "type_style"⟩ (.text s.naming.typeStyle.text),
      .assign ⟨[], "extra_reserved_words"⟩ (.array (s.naming.extraReservedWords.map .text)),
      .assign ⟨[], "max_suffix_attempts"⟩ (.int s.naming.maxSuffixAttempts.toNat),
      .table ⟨["rename"], "overrides"⟩] = some ⟨s.aroundOverrides [], ["rename", "overrides"]⟩ := by
  simp [Document.empty, Document.add, Entries.within, Entries.alter, Entries.openTable, Entries.assign, Value.toTree?,
    itemsToTree?_texts, aroundOverrides]

theorem ofStatements?_statements (s : Settings) : Document.ofStatements? s.statements = some s.document := by
  have hkeys : (s.naming.overrides.entries.map (·.1)).Nodup :=
    List.pairwise_map.2 (s.naming.overrides.sorted.imp fun {a b} (hlt : a.1 < b.1) (heq : a.1 = b.1) =>
      String.lt_irrefl b.1 (heq ▸ hlt))
  have hoverrides := @Document.foldlM_add_texts _ _ s.leadsTo_overrides [] _ hkeys
  rw [Document.ofStatements?, statements, List.foldlM_append, s.foldlM_add_tables, Option.bind_eq_bind,
    Option.bind_some, hoverrides, Option.map_some, List.nil_append, entriesToTree_aroundOverrides]

/-! ## The settings of a document -/

theorem ofTree?_writtenNaming (s : NameSettings) :
    Shape.ofTree? .knot .table NameSettings.shape (.ofJson (writtenNaming s)) = some s.toJson := by
  have hstyle : ∀ style : NameStyle, style.text ∈ NameStyle.words.map (·.1) := by
    intro style
    cases style <;> decide
  have hoverrides : Shape.Reads .knot .dictionary s.overrides.toJson := .dictionary s.overrides.entries
  -- the overrides are written last, for nothing else of their table can stand after them
  exact Shape.ofTree?_record_of_perm (by simp) (by simp [hstyle, hoverrides, Shape.Reads.ofList])
    (.cons _ (.cons _ (@List.perm_append_comm _ [_, _] [_])))

theorem ofTree?_document (s : Settings) : Shape.ofTree? .knot .table shape s.document = some s.toJson := by
  have hinterfaces : Shape.ofTree? .knot .table interfaceShape
      (.object [("synthesize_diamonds", .bool s.interfaces.synthesizeDiamonds)]) =
      some (.object [("synthesize_diamonds", .bool s.interfaces.synthesizeDiamonds)]) := rfl
  have hnaming := ofTree?_writtenNaming s.naming
  rw [document, shape, Shape.ofTree?_record, Shape.ofEntries?_cons, Shape.ofEntries?_cons]
  simp [Shape.fieldOfTree?, Shape.ofEntries?, hinterfaces, hnaming, Shape.complete?, toJson]

/-! ## The file -/

theorem statements_isSetting (s : Settings) : ∀ x ∈ s.statements, x.IsSetting := by
  have hassign : ∀ key v, v.IsSetting maxDepth → (Statement.assign ⟨[], key⟩ v).IsSetting := fun _ _ h =>
    ⟨by simp [maxDepth], h⟩
  have hmax : s.naming.maxSuffixAttempts.toNat < .pow 2 63 :=
    Nat.lt_trans s.naming.maxSuffixAttempts.toNat_lt (by decide)
  have hwords : Value.IsSetting maxDepth (.array (s.naming.extraReservedWords.map .text)) :=
    @Value.IsSetting.array 78 _ (List.forall_mem_map.2 fun word _ => .text word)
  simp only [statements, List.forall_mem_append, List.forall_mem_cons, List.forall_mem_map, List.not_mem_nil,
    false_implies, implies_true, and_true]
  exact ⟨⟨show 0 < 79 by decide, hassign _ _ (.bool _), show 0 < 79 by decide, hassign _ _ (.text _),
    hassign _ _ (.text _), hassign _ _ hwords, hassign _ _ (.int hmax), show 1 < 79 by decide⟩,
    fun _ _ => hassign _ _ (.text _)⟩

/-- All settings are read back from the file that they are written to. -/
theorem ofToml_toToml (s : Settings) : ofToml s.toToml = .ok s := by
  have hread : ofToml? s.toToml = some s := by
    rw [ofToml?, Document.read?, toToml, Statement.read?_render s.statements_isSetting, Option.bind_some,
      ofStatements?_statements, Option.bind_some, ofDocument?, ofTree?_document, Option.bind_some, ofJson?_toJson]
  rw [ofToml, hread]

end Settings

end Exonym
