import Exonym.Text.CaseMap

/-!
# Case styles

Main statements:

* `NameStyle.camel_of_not_isUppercase`: a name that starts with no capital is in camel case already.
-/

namespace Exonym

inductive NameStyle where
  | preserve
  | camelCase
  | pascalCase
  deriving DecidableEq, Repr, Inhabited

namespace NameStyle

open CharClass CaseMap

/-- How many capitals at the front are lowered: the whole run of capitals, but of two or more the last is kept
when a small letter follows, for there it starts the next word. -/
def loweredCount (name : List Char) : Nat :=
  match (name.takeWhile isUppercase).length, name.dropWhile isUppercase with
  | 0, _ => 0
  | 1, _ => 1
  | run, [] => run
  | run, next :: _ => if isLowercase next then run - 1 else run

def camel (name : List Char) : List Char :=
  (name.take (loweredCount name)).flatMap toLowercase ++ name.drop (loweredCount name)

/-- The first character is raised. -/
def pascal : List Char → List Char
  | [] => []
  | first :: rest => toUppercase first ++ rest

def apply (style : NameStyle) (name : String) : String :=
  match style with
  | .preserve => name
  | .camelCase => .ofList (camel name.toList)
  | .pascalCase => .ofList (pascal name.toList)

theorem camel_of_not_isUppercase {c : Char} {rest : List Char} (h : isUppercase c = false) :
    camel (c :: rest) = c :: rest := by
  simp [camel, loweredCount, h]

end NameStyle

end Exonym
