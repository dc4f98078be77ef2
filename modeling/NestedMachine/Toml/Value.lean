/-!
# TOML values

A value is kept as far as its reader needs it: fractions and dates have no content
here, because nothing that is configured has one.  The members of a table have
different names.
-/

namespace NestedMachine

set_option autoImplicit false

/-- A TOML value. -/
inductive Toml where
  | bool (value : Bool)
  | integer (value : Int)
  /-- A number with a fraction or an exponent, an infinity, or no number. -/
  | fraction
  /-- A date, a time, or both. -/
  | moment
  | string (value : String)
  | array (items : List Toml)
  | table (members : List (String × Toml))
  deriving Repr, Inhabited

namespace Toml

/-- The value of a name in a table. -/
def member? (members : List (String × Toml)) (name : String) : Option Toml :=
  members.lookup name

end Toml

end NestedMachine
