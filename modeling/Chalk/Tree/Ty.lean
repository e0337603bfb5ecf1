/-!
The types of the language: five plain ones, each with one name.
-/

namespace Chalk

inductive Ty where
  | int | float | string | bool | void
deriving DecidableEq, Repr, Inhabited

namespace Ty

/-- The name by which a program writes a type. -/
def name : Ty → String
  | int => "int"
  | float => "float"
  | string => "string"
  | bool => "bool"
  | void => "void"

def all : List Ty :=
  [int, float, string, bool, void]

/-- The type of the given name. -/
def ofName? (name : String) : Option Ty :=
  all.find? (·.name == name)

theorem ofName?_eq_some_iff {name : String} {ty : Ty} :
    ofName? name = some ty ↔ ty.name = name := by
  constructor
  · intro h
    simpa using List.find?_some h
  · rintro rfl
    cases ty <;> decide

/-- Whether values of the type can be negated. -/
def isNumeric : Ty → Bool
  | int | float => true
  | string | bool | void => false

end Ty

end Chalk
