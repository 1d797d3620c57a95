import TokenBridge.Json.Basic
import TokenBridge.Text.Base64
/-!
Values with a JSON form. Reading is strict: a record has the fields named for it, each once and no
other; an optional field is absent or `null` where it has no value; a choice is a record with one
field, named for the choice.
-/
namespace TokenBridge

class Wire (α : Type) where
  toJson : α → Json
  ofJson? : Json → Option α

export Wire (toJson ofJson?)

structure Blob where
  bytes : Bytes
  deriving DecidableEq, Repr

namespace Json

def text? : Json → Option String
  | .text s => some s
  | _ => none

def nat? : Json → Option Nat
  | .nat n => some n
  | _ => none

def list? : Json → Option (List Json)
  | .list items => some items
  | _ => none

abbrev Fields := List (String × Json)

def distinct : List String → Bool
  | [] => true
  | name :: rest => !rest.contains name && distinct rest

def fields? (names : List String) : Json → Option Fields
  | .record fields =>
    let given := fields.map Prod.fst
    if given.all names.contains && distinct given then some fields else none
  | _ => none

namespace Fields

def find? (name : String) : Fields → Option Json
  | [] => none
  | (other, value) :: rest => if other = name then some value else find? name rest

def read {α : Type} [Wire α] (fields : Fields) (name : String) : Option α := do
  ofJson? (← find? name fields)

def readOptional {α : Type} [Wire α] (fields : Fields) (name : String) : Option (Option α) :=
  match find? name fields with
  | none => some none
  | some .null => some none
  | some value => (ofJson? value).map some

end Fields

def choice? : Json → Option (String × Json)
  | .record [(name, content)] => some (name, content)
  | _ => none

def choice (name : String) (fields : Fields) : Json := .record [(name, .record fields)]

end Json

instance : Wire Json := ⟨id, some⟩

instance : Wire Bool where
  toJson := .bool
  ofJson?
    | .bool b => some b
    | _ => none

instance : Wire String := ⟨.text, Json.text?⟩

instance : Wire UInt64 where
  toJson n := .nat n.toNat
  ofJson? json := do
    let n ← json.nat?
    if n < UInt64.size then some (UInt64.ofNat n) else none

instance : Wire UInt32 where
  toJson n := .nat n.toNat
  ofJson? json := do
    let n ← json.nat?
    if n < UInt32.size then some (UInt32.ofNat n) else none

instance : Wire UInt8 where
  toJson n := .nat n.toNat
  ofJson? json := do
    let n ← json.nat?
    if n < UInt8.size then some (UInt8.ofNat n) else none

instance : Wire Blob where
  toJson blob := .text (Text.Base64.encode blob.bytes)
  ofJson? json := do return ⟨← Text.Base64.decode? (← json.text?)⟩

instance {α : Type} [Wire α] : Wire (List α) where
  toJson items := .list (items.map toJson)
  ofJson? json := do (← json.list?).mapM ofJson?

instance {α : Type} [Wire α] : Wire (Option α) where
  toJson
    | none => .null
    | some value => toJson value
  ofJson?
    | .null => some none
    | json => (ofJson? json).map some

instance {α β : Type} [Wire α] [Wire β] : Wire (α × β) where
  toJson pair := .list [toJson pair.1, toJson pair.2]
  ofJson?
    | .list [first, second] => do return (← ofJson? first, ← ofJson? second)
    | _ => none

end TokenBridge
