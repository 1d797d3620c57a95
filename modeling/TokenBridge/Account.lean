import TokenBridge.Key
import TokenBridge.Json.Wire
import TokenBridge.Text.Capital
/-!
Accounts of this chain. An account that a message names is checked before it is used: 3 to 90 bytes,
no capital and no NUL. The sender of a message is taken as the chain gives it.
-/
namespace TokenBridge

structure Account where
  name : String
  deriving DecidableEq, Repr

inductive AccountFault where
  | tooShort
  | tooLong
  | notNormalized
  deriving DecidableEq, Repr

def AccountFault.message : AccountFault → String
  | .tooShort =>
    "Invalid input: human address too short for this mock implementation (must be >= 3)."
  | .tooLong =>
    "Invalid input: human address too long for this mock implementation (must be <= 90)."
  | .notNormalized => "Invalid input: address not normalized"

namespace Account

theorem ext {a b : Account} (h : a.name = b.name) : a = b := by
  cases a; cases b; cases h; rfl

instance : Key Account := Key.via Account.name fun _ _ => ext

instance : ToString Account := ⟨Account.name⟩

def isNormal (c : Char) : Bool := !Text.isCapital c && c != '\x00'

def validate (name : String) : Except AccountFault Account :=
  if name.utf8ByteSize < 3 then .error .tooShort
  else if 90 < name.utf8ByteSize then .error .tooLong
  else if name.toList.all isNormal then .ok ⟨name⟩
  else .error .notNormalized

instance : Wire Account where
  toJson a := .text a.name
  ofJson? json := do return ⟨← json.text?⟩

end Account

end TokenBridge
