import TokenBridge.Amount
/-!
Decimal fractions with 18 places, kept as a whole number of atomics below 2^128. Both the whole part and
the fraction of a written decimal are numerals, and a sign in front of the fraction takes one of
its 18 characters.
-/
namespace TokenBridge

structure Decimal where
  atomics : Nat
  bound : atomics < Amount.size
  deriving Repr

namespace Decimal

theorem ext {a b : Decimal} (h : a.atomics = b.atomics) : a = b := by
  cases a; cases b; cases h; rfl

instance : DecidableEq Decimal := fun a b =>
  if h : a.atomics = b.atomics then isTrue (ext h) else isFalse fun same => h (by rw [same])

def places : Nat := 18

def scale : Nat := 1000000000000000000

def ofAtomics? (n : Nat) : Option Decimal :=
  if h : n < Amount.size then some ⟨n, h⟩ else none

def one : Decimal := ⟨scale, by decide⟩

def percent (n : UInt8) : Decimal :=
  ⟨n.toNat * 10000000000000000, by
    have := n.toNat_lt
    simp only [Amount.size]
    omega⟩

def ofRatio? (numerator denominator : Nat) : Option Decimal :=
  ofAtomics? (numerator * scale / denominator)

def below (a b : Decimal) : Bool := Nat.blt a.atomics b.atomics

def read? (s : String) : Option Decimal := do
  let cs := s.toList
  let whole ← Text.Numeral.read? (cs.takeWhile (· != '.'))
  match cs.dropWhile (· != '.') with
  | [] => ofAtomics? (whole * scale)
  | _ :: fraction =>
    if fraction.length ≤ places then
      let part ← Text.Numeral.read? fraction
      ofAtomics? (whole * scale + part * Nat.pow 10 (places - fraction.length))
    else none

def dropTrailingZeros (cs : List Char) : List Char := (cs.reverse.dropWhile (· == '0')).reverse

def write (d : Decimal) : String :=
  let whole := toString (d.atomics / scale)
  let part := d.atomics % scale
  if part = 0 then whole
  else
    let digits := (toString part).toList
    let padded := List.replicate (places - digits.length) '0' ++ digits
    whole ++ "." ++ String.ofList (dropTrailingZeros padded)

instance : ToString Decimal := ⟨write⟩

instance : Wire Decimal where
  toJson d := .text (toString d)
  ofJson? json := do read? (← json.text?)

end Decimal

end TokenBridge
