/-!
# JSON values

A value is kept as far as its reader needs it.  An integer is kept as its value;
any other number, and negative zero, only as its numeral.  A text that names half
of a surrogate pair spells nothing.  The members of an object keep their order,
and a name may occur twice.
-/

namespace NestedMachine

set_option autoImplicit false

/-- A JSON value. -/
inductive Json where
  | null
  | bool (value : Bool)
  | integer (value : Int)
  /-- A number that is written with a fraction or an exponent, or negative zero. -/
  | decimal (numeral : String)
  /-- A text, or nothing where it names half of a surrogate pair. -/
  | string (value : Option String)
  | array (items : List Json)
  | object (members : List (Option String × Json))
  deriving Repr, Inhabited

namespace Json

/-- The members of that name. -/
def membersNamed (members : List (Option String × Json)) (name : String) : List Json :=
  (members.filter fun field => field.1 == some name).map (·.2)

/-- The integer that a value is, if it lies in a range. -/
def integerIn? (least most : Int) : Json → Option Int
  | .integer value => if least ≤ value ∧ value ≤ most then some value else none
  | _ => none

/-- The natural number below a bound that a value is. -/
def naturalBelow? (bound : Nat) (value : Json) : Option Nat :=
  (value.integerIn? 0 (bound - 1)).map Int.toNat

end Json

end NestedMachine
