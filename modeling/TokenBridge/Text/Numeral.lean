/-!
Unsigned decimal numerals: an optional plus sign, then one or more ASCII digits, leading zeros
allowed. Numbers are written without sign and without leading zeros (`toString` on `Nat`).
-/
namespace TokenBridge.Text.Numeral

def digit? (c : Char) : Option Nat :=
  if c.isDigit then some (c.toNat - '0'.toNat) else none

def digitsFrom (value : Nat) : List Char → Option Nat
  | [] => some value
  | c :: rest => do digitsFrom (10 * value + (← digit? c)) rest

def digits? : List Char → Option Nat
  | [] => none
  | cs => digitsFrom 0 cs

def read? : List Char → Option Nat
  | '+' :: cs => digits? cs
  | cs => digits? cs

end TokenBridge.Text.Numeral
