import Exonym.Json

/-!
# Values as they are read

A tree is what a text or a table of settings says, before anybody asks whether it is of the form expected.

Main statements:

* `Tree.ofItems_eq_map`, `Tree.ofFields_eq_map`: a container is read as the container of what is in it.
-/

namespace Exonym

inductive Tree where
  | null
  | bool (b : Bool)
  | int (n : Int)
  /-- A number with a fraction or an exponent, or one too large for a whole number. Nothing is ever one, so its
  digits are not kept. -/
  | real
  | text (s : String)
  | array (items : List Tree)
  | object (entries : List (String × Tree))
  deriving Repr, Inhabited

namespace Tree

mutual

/-- A value as it would be read. -/
def ofJson : Json → Tree
  | .null => .null
  | .bool b => .bool b
  | .int n => .int n
  | .text s => .text s
  | .array items => .array (ofItems items)
  | .object fields => .object (ofFields fields)

def ofItems : List Json → List Tree
  | [] => []
  | j :: rest => ofJson j :: ofItems rest

def ofFields : List (String × Json) → List (String × Tree)
  | [] => []
  | (key, j) :: rest => (key, ofJson j) :: ofFields rest

end

theorem ofItems_eq_map (items : List Json) : ofItems items = items.map ofJson := by
  induction items with
  | nil => rfl
  | cons j rest ih => simp [ofItems, ih]

theorem ofFields_eq_map (fields : List (String × Json)) :
    ofFields fields = fields.map fun f => (f.1, ofJson f.2) := by
  induction fields with
  | nil => rfl
  | cons f rest ih => simp [ofFields, ih]

end Tree

end Exonym
