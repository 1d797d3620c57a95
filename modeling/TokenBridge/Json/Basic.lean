/-!
JSON values. Plain natural numbers are values of their own; every other numeral is kept as it is
written, since no field of a message is read from one. The fields of a record keep their order and
their repeats. A text whose escapes stand for no characters is ill-formed, and so is a record with
such a name: each has a place and an end among the values around it, but no type is read from it.
-/
namespace TokenBridge

inductive Json where
  | null
  | bool (value : Bool)
  | nat (value : Nat)
  | numeral (written : String)
  | text (value : String)
  | list (items : List Json)
  | record (fields : List (String × Json))
  | illFormed
  deriving Repr

end TokenBridge
