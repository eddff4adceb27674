namespace DebRelease.Json

/-- A number: a whole number of at most 64 bits, or a floating-point number. -/
inductive Number where
  | integer (value : Int)
  /-- A number with a fraction, an exponent or too many digits. -/
  | double (value : Float)
  deriving BEq, Repr, Inhabited

/-- A JSON value. -/
inductive Value where
  | null
  | bool (value : Bool)
  | number (value : Number)
  | string (value : String)
  | array (items : List Value)
  | object (members : List (String × Value))
  deriving Repr, Inhabited

/-- The members of an object. -/
abbrev Members := List (String × Value)

/-- Sets the value of a key: in place of the value it has, or else at the end. -/
def Members.set (members : Members) (key : String) (value : Value) : Members :=
  match members with
  | [] => [(key, value)]
  | (k, v) :: rest =>
    if k = key then (key, value) :: rest else (k, v) :: Members.set rest key value

/-- The value of a key. -/
def Members.get? (members : Members) (key : String) : Option Value :=
  members.lookup key

end DebRelease.Json
