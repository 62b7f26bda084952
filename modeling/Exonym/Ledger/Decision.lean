import Exonym.Ledger.Scope

/-!
# Requests for names, and decisions

A request asks for a name for a symbol in a scope; a decision records the final name that the symbol got there,
and how it came about.
-/

namespace Exonym

/-- Which of the configured styles a request is subject to. -/
inductive NameKind where
  | type
  | member
  deriving DecidableEq, Repr, Inhabited

/-- Types have the style of types, members that of members. -/
def NameKind.of : SymbolId → NameKind
  | .type _ => .type
  | .member _ => .member

/-- Where a final name comes from. -/
inductive NameSource where
  /-- It was derived from the requested name. -/
  | automatic
  /-- The user has chosen it. -/
  | override
  /-- It is the requested name, without style and regardless of reserved words. -/
  | verbatim
  deriving DecidableEq, Repr, Inhabited

def NameSource.text : NameSource → String
  | .automatic => "Automatic"
  | .override => "Override"
  | .verbatim => "Verbatim"

/-- How a name was kept apart from those in the scope. -/
inductive Strategy where
  /-- Nothing had to be done. -/
  | none
  /-- The short name of the implemented interface was added. -/
  | interfaceQualified
  | numericSuffix (n : UInt32)
  /-- The name is that of the overload group. -/
  | overloadShared
  deriving DecidableEq, Repr, Inhabited

def Strategy.text : Strategy → String
  | .none => "None"
  | .interfaceQualified => "InterfaceQualified"
  | .numericSuffix n => "NumericSuffix(" ++ toString n.toNat ++ ")"
  | .overloadShared => "OverloadShared"

structure Request where
  id : SymbolId
  base : String
  scope : Scope
  reason : String
  isStatic : Bool
  kind : NameKind
  /-- The short name of an interface, to be tried before numeric suffixes. -/
  qualifier : Option String
  /-- The overload group whose members have one name in the scope. -/
  group : Option String
  /-- No style and no care for reserved words. -/
  verbatim : Bool
  deriving Repr, Inhabited

/-- A plain request; what it leaves open follows from the symbol and the scope. -/
def Request.of (id : SymbolId) (base : String) (scope : Scope) : Request where
  id := id
  base := base
  scope := scope
  reason := ""
  isStatic := scope.isStatic
  kind := .of id
  qualifier := none
  group := none
  verbatim := false

structure Decision where
  id : SymbolId
  requested : String
  finalName : String
  reason : String
  source : NameSource
  strategy : Strategy
  /-- The requested name was a reserved word and had to be changed. -/
  sanitized : Bool
  scope : Scope
  isStatic : Bool
  group : Option String
  deriving Repr, Inhabited

/-- Who has a name in a scope: one symbol, or all members of an overload group. -/
inductive Holder where
  | symbol (id : SymbolId)
  | group (name : String)
  deriving DecidableEq, Repr

def Holder.text : Holder → String
  | .symbol id => id.text
  | .group name => "group " ++ name

namespace Decision

def holder (d : Decision) : Holder :=
  match d.group with
  | some name => .group name
  | none => .symbol d.id

/-- By the key of the scope, then by final name, then by symbol. -/
def order : Decision → Decision → Ordering :=
  compareLex (compareOn (·.scope.key)) (compareLex (compareOn finalName) (compareOn id))

end Decision

/-- What a failed look-up was looking at. -/
inductive Place where
  | scope (s : Scope)
  /-- Some view of the type. -/
  | view
  | noView
  | graph
  /-- The accessors on a surface. -/
  | accessor (s : Scope)
  deriving DecidableEq, Repr

def Place.text : Place → String
  | .scope s => s.key
  | .view => "view"
  | .noView => "no view"
  | .graph => "graph"
  | .accessor s => s.key ++ " accessor"

inductive NameError where
  /-- The symbol has no name in the place; it has one in the scopes given. -/
  | noDecision (id : SymbolId) (place : Place) (available : List Scope)
  /-- The symbol was looked up in a place where it is not emitted. -/
  | scopeMismatch (id : SymbolId) (requested actual : Place)
  /-- The symbol has a name in the scope already, which was requested as something else. -/
  | conflictingReservation (id : SymbolId) (scope : Scope) (existing requested : String)
  /-- No numeric suffix gives a free name; the names of the scope are listed. -/
  | suffixExhausted (scope : Scope) (base : String) (attempts : UInt32) (dump : List String)
  deriving Repr

def NameError.message : NameError → String
  | .noDecision id place available =>
    "no name decision for " ++ id.text ++ " in " ++ place.text ++ "; decisions exist in [" ++
      ", ".intercalate (available.map (·.key)) ++ "]"
  | .scopeMismatch id requested actual =>
    id.text ++ " is not named in " ++ requested.text ++ "; it lives in " ++ actual.text
  | .conflictingReservation id scope existing requested =>
    id.text ++ " already reserved in " ++ scope.key ++ " as `" ++ existing ++ "`, cannot re-reserve as `" ++
      requested ++ "`"
  | .suffixExhausted scope base attempts _ =>
    "no free name for `" ++ base ++ "` in " ++ scope.key ++ " after " ++ toString attempts.toNat ++ " attempts"

end Exonym
