import Exonym.Json.Tree
import Exonym.Toml.Statement

/-!
# What a settings file says

The statements of a settings file are put together to one table. A table is defined once: by its heading, or by
assignments to keys in it, and an inline table is complete as it stands. A table that is there only because another
heading leads through it may still get a heading of its own.

Main statements:

* `Entries.find?_alter_self`: an altered entry is what it was altered to.
* `Entries.find?_alter_of_ne`: other entries stay as they are.
-/

namespace Exonym.Toml

/-- Why a table is there. -/
inductive Origin where
  /-- It has a heading. -/
  | explicit
  /-- A heading leads through it. -/
  | implied
  /-- An assignment leads through it. -/
  | dotted
  deriving DecidableEq, Repr

inductive Node where
  /-- A value that cannot be added to. -/
  | leaf (value : Tree)
  | table (origin : Origin) (entries : List (String × Node))
  | tables (elements : List (List (String × Node)))

/-- What a table holds, in the order in which it was put in. -/
abbrev Entries := List (String × Node)

mutual

def Node.toTree : Node → Tree
  | .leaf value => value
  | .table _ entries => .object (entriesToTree entries)
  | .tables elements => .array (elementsToTree elements)

def entriesToTree : List (String × Node) → List (String × Tree)
  | [] => []
  | (key, n) :: rest => (key, n.toTree) :: entriesToTree rest

def elementsToTree : List (List (String × Node)) → List Tree
  | [] => []
  | entries :: rest => .object (entriesToTree entries) :: elementsToTree rest

end

namespace Entries

def find? (es : Entries) (key : String) : Option Node :=
  (List.find? (·.1 = key) es).map (·.2)

/-- Alters the entry of a key, or adds it; the alteration may refuse. -/
def alter (key : String) (f : Option Node → Option Node) : Entries → Option Entries
  | [] => (f none).map fun n => [(key, n)]
  | (k, n) :: rest =>
    if k = key then (f (some n)).map fun n => (k, n) :: rest
    else (alter key f rest).map ((k, n) :: ·)

/-- Alters the last element of an array of tables. -/
def alterLast (f : Entries → Option Entries) : List Entries → Option (List Entries)
  | [] => none
  | [es] => (f es).map fun es => [es]
  | es :: rest => (alterLast f rest).map (es :: ·)

theorem find?_alter_self {key : String} {f : Option Node → Option Node} {es after : Entries}
    (h : alter key f es = some after) : after.find? key = f (es.find? key) := by
  induction es generalizing after with
  | nil =>
    obtain ⟨n, hn, rfl⟩ := Option.map_eq_some_iff.1 h
    simp [find?, hn]
  | cons e rest ih =>
    obtain ⟨k, n⟩ := e
    unfold alter at h
    split at h
    · obtain ⟨m, hm, rfl⟩ := Option.map_eq_some_iff.1 h
      simp_all [find?]
    · rename_i hne
      obtain ⟨es, hes, rfl⟩ := Option.map_eq_some_iff.1 h
      have := ih hes
      simp_all [find?, List.find?_cons_of_neg]

theorem find?_alter_of_ne {key other : String} {f : Option Node → Option Node} {es after : Entries}
    (h : alter key f es = some after) (hne : other ≠ key) : after.find? other = es.find? other := by
  induction es generalizing after with
  | nil =>
    obtain ⟨n, hn, rfl⟩ := Option.map_eq_some_iff.1 h
    simp [find?, hne.symm]
  | cons e rest ih =>
    obtain ⟨k, n⟩ := e
    unfold alter at h
    split at h
    · rename_i hk
      obtain ⟨m, hm, rfl⟩ := Option.map_eq_some_iff.1 h
      have : k ≠ other := fun he => hne (he ▸ hk)
      simp [find?, this]
    · obtain ⟨es, hes, rfl⟩ := Option.map_eq_some_iff.1 h
      have := ih hes
      by_cases hk : k = other <;> simp_all [find?]

/-- Puts a value at the end of a path of dotted keys. The last table on the way has to be one that dotted keys
define. -/
def assign (key : String) (value : Tree) : List String → Entries → Option Entries
  | [], es => alter key (fun | none => some (.leaf value) | some _ => none) es
  | step :: path, es =>
    alter step (fun
      | none => (assign key value path []).map (.table .dotted)
      | some (.table .dotted inner) => (assign key value path inner).map (.table .dotted)
      | some (.table .implied inner) =>
        if path.isEmpty then none else (assign key value path inner).map (.table .implied)
      | some (.tables elements) =>
        if path.isEmpty then none else (alterLast (assign key value path) elements).map .tables
      | some _ => none) es

/-- Does something to the table at the end of a path of headings. Tables that are missing on the way come to be, and
of an array of tables the last element counts. -/
def within (f : Entries → Option Entries) : List String → Entries → Option Entries
  | [], es => f es
  | step :: path, es =>
    alter step (fun
      | none => (within f path []).map (.table .implied)
      | some (.table origin inner) => (within f path inner).map (.table origin)
      | some (.tables elements) => (alterLast (within f path) elements).map .tables
      | some (.leaf _) => none) es

/-- Gives a table its heading: a new one, or one that headings lead through. -/
def openTable (key : String) : Entries → Option Entries :=
  alter key fun
    | none => some (.table .explicit [])
    | some (.table .implied inner) => some (.table .explicit inner)
    | some _ => none

/-- Adds an element to an array of tables. -/
def addElement (key : String) : Entries → Option Entries :=
  alter key fun
    | none => some (.tables [[]])
    | some (.tables elements) => some (.tables (elements ++ [[]]))
    | some _ => none

end Entries

/-- A date or a time counts as a table that has its text under this key. -/
def momentKey : String := "$__toml_private_datetime"

mutual

/-- The meaning of a value. An inline table may fail to have one. -/
def Value.toTree? : Value → Option Tree
  | .text s => some (.text s)
  | .int n => some (.int n)
  | .real _ => some .real
  | .bool b => some (.bool b)
  | .moment m => some (.object [(momentKey, .text (.ofList m.text))])
  | .array items => (itemsToTree? items).map .array
  | .inlineTable assignments =>
    (inlineEntries? [] assignments).map fun es => .object (entriesToTree es)

def itemsToTree? : List Value → Option (List Tree)
  | [] => some []
  | v :: rest => do
    return (← v.toTree?) :: (← itemsToTree? rest)

def inlineEntries? (es : Entries) : List (Path × Value) → Option Entries
  | [] => some es
  | (path, v) :: rest => do
    let value ← v.toTree?
    let es ← Entries.assign path.key value path.parents es
    inlineEntries? es rest

end

/-- A document under way: its outermost table, and where the table lies whose heading came last. -/
structure Document where
  entries : Entries
  current : List String

namespace Document

def empty : Document := ⟨[], []⟩

def add (d : Document) : Statement → Option Document
  | .table path => do
    return ⟨← Entries.within (Entries.openTable path.key) path.parents d.entries, path.parents ++ [path.key]⟩
  | .element path => do
    return ⟨← Entries.within (Entries.addElement path.key) path.parents d.entries, path.parents ++ [path.key]⟩
  | .assign path v => do
    let value ← v.toTree?
    return { d with
      entries := ← Entries.within (Entries.assign path.key value path.parents) d.current d.entries }

/-- What all statements together say. -/
def ofStatements? (statements : List Statement) : Option Tree :=
  (statements.foldlM add empty).map fun d => .object (entriesToTree d.entries)

/-- What a text says, if it is a settings file. -/
def read? (text : String) : Option Tree :=
  (Statement.read? text).bind ofStatements?

end Document

end Exonym.Toml
