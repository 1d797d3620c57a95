import TokenBridge.Text.Utf8
/-!
Hexadecimal text. Digits of either case are read; lower case is written. Reading works on the bytes of
the text and names the first byte that is no digit.
-/
namespace TokenBridge.Text.Hex

structure BadDigit where
  byte : UInt8
  position : Nat
  deriving DecidableEq, Repr

def nibble? (b : UInt8) : Option UInt8 :=
  let n := b.toNat
  if 48 ≤ n ∧ n ≤ 57 then some (b - 48)
  else if 97 ≤ n ∧ n ≤ 102 then some (b - 87)
  else if 65 ≤ n ∧ n ≤ 70 then some (b - 55)
  else none

def nibbleAt (position : Nat) (b : UInt8) : Except BadDigit UInt8 :=
  match nibble? b with
  | some n => .ok n
  | none => .error ⟨b, position⟩

def readFrom (position : Nat) : Bytes → Except BadDigit Bytes
  | high :: low :: rest => do
    let h ← nibbleAt position high
    let l ← nibbleAt (position + 1) low
    return (16 * h + l) :: (← readFrom (position + 2) rest)
  | _ => .ok []

def read (raw : Bytes) : Except BadDigit Bytes := readFrom 0 raw

def read? (s : String) : Option Bytes :=
  let raw := utf8 s
  if raw.length % 2 = 0 then (read raw).toOption else none

def digit (n : Nat) : Char := if n < 10 then Char.ofNat (48 + n) else Char.ofNat (87 + n)

def write : Bytes → List Char
  | [] => []
  | b :: rest => digit (b.toNat / 16) :: digit (b.toNat % 16) :: write rest

def marked (raw : Bytes) : String := String.ofList ('0' :: 'x' :: write raw)

end TokenBridge.Text.Hex
