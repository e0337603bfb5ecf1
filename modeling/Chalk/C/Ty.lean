import Chalk.Tree.Ty

/-!
Types of the language in C: the C type of a value, and the conversion by which `printf` prints it.
-/

namespace Chalk.Ty

/-- The C type. Truth values are integers in C. -/
def cName : Ty → String
  | int => "int"
  | float => "float"
  | string => "char*"
  | bool => "int"
  | void => "void"

/-- The conversion of `printf`. -/
def conversion : Ty → String
  | string => "%s"
  | float => "%f"
  | int | bool | void => "%d"

end Chalk.Ty
