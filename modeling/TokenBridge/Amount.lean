import TokenBridge.Key
import TokenBridge.Json.Wire
import TokenBridge.Text.Numeral
/-!
Token amounts: natural numbers below 2^128. Sums and differences are partial, so a result that has no
amount is a case of its own and never wraps.
-/
namespace TokenBridge

/-- 2^128, the number of amounts. -/
abbrev Amount.size : Nat := 340282366920938463463374607431768211456

structure Amount where
  val : Nat
  bound : val < Amount.size
  deriving DecidableEq, Repr

namespace Amount

theorem ext {a b : Amount} (h : a.val = b.val) : a = b := by
  cases a; cases b; cases h; rfl

def ofNat? (n : Nat) : Option Amount :=
  if h : n < size then some ⟨n, h⟩ else none

def zero : Amount := ⟨0, by decide⟩

instance : Inhabited Amount := ⟨zero⟩

def isZero (a : Amount) : Bool := a.val == 0

def below (a b : Amount) : Bool := Nat.blt a.val b.val

def add? (a b : Amount) : Option Amount := ofNat? (a.val + b.val)

def sub? (a b : Amount) : Option Amount :=
  if b.val ≤ a.val then some ⟨a.val - b.val, Nat.lt_of_le_of_lt (Nat.sub_le ..) a.bound⟩ else none

def sumFrom (total : Amount) : List Amount → Option Amount
  | [] => some total
  | a :: rest => do sumFrom (← total.add? a) rest

def sum? (amounts : List Amount) : Option Amount := sumFrom zero amounts

def headroom (a : Amount) : Amount :=
  ⟨size - 1 - a.val, Nat.lt_of_le_of_lt (Nat.sub_le ..) (by decide)⟩

def read? (s : String) : Option Amount := do
  ofNat? (← Text.Numeral.read? s.toList)

instance : ToString Amount := ⟨fun a => toString a.val⟩

instance : Key Amount := Key.via Amount.val fun _ _ => ext

instance : Wire Amount where
  toJson a := .text (toString a)
  ofJson? json := do read? (← json.text?)

end Amount

end TokenBridge
