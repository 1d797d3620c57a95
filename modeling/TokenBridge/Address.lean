import TokenBridge.Word
import TokenBridge.Json.Wire
/-!
Ethereum addresses: 20 bytes, ordered by them. The written form is `0x` and 40 lower-case digits; on
reading the marker may be missing or have a capital, and digits have either case. The length is
looked at before the digits.
-/
namespace TokenBridge

structure Address where
  bytes : Bytes
  size : bytes.length = 20
  deriving DecidableEq

inductive AddressFault where
  | length (found : Nat)
  | badDigit (digit : Text.Hex.BadDigit)
  deriving DecidableEq, Repr

namespace AddressFault

def quotedByte (b : UInt8) : String :=
  let n := b.toNat
  let inner :=
    if n = 0 then "\\0"
    else if n = 9 then "\\t"
    else if n = 10 then "\\n"
    else if n = 13 then "\\r"
    else if n = 39 then "\\'"
    else if n = 92 then "\\\\"
    else if n < 32 ∨ n = 127 then
      "\\u\x7b" ++ String.ofList (Nat.toDigits 16 n) ++ "\x7d"
    else String.singleton (Char.ofNat n)
  "'" ++ inner ++ "'"

def message : AddressFault → String
  | length found => "expected 40 hex chars, got " ++ toString found
  | badDigit ⟨byte, position⟩ =>
    "invalid hex: Invalid character " ++ quotedByte byte ++ " at position " ++ toString position

end AddressFault

namespace Address

theorem ext {a b : Address} (h : a.bytes = b.bytes) : a = b := by
  cases a; cases b; cases h; rfl

/-- Stands for the reward token of a set without reward. -/
def zero : Address := ⟨List.replicate 20 0, by simp⟩

instance : Inhabited Address := ⟨zero⟩

instance : Key Address := Key.via Address.bytes fun _ _ => ext

def unmarked : Bytes → Bytes
  | 0x30 :: 0x78 :: rest => rest
  | 0x30 :: 0x58 :: rest => rest
  | raw => raw

theorem readLength : ∀ {position : Nat} {raw bytes : Bytes},
    Text.Hex.readFrom position raw = .ok bytes → bytes.length = raw.length / 2
  | _, [], _, h => by cases h; rfl
  | _, [_], _, h => by cases h; simp
  | position, high :: low :: rest, bytes, h => by
    simp only [Text.Hex.readFrom, bind, Except.bind] at h
    split at h
    · cases h
    · split at h
      · cases h
      · split at h
        · cases h
        · rename_i tail found
          cases h
          simp only [List.length_cons, readLength found]
          omega

def ofDigits (digits : Bytes) : Except AddressFault Address :=
  if exact : digits.length = 40 then
    match found : Text.Hex.read digits with
    | .ok bytes => .ok ⟨bytes, by rw [readLength found, exact]⟩
    | .error digit => .error (.badDigit digit)
  else .error (.length digits.length)

def parse (s : String) : Except AddressFault Address := ofDigits (unmarked (Text.utf8 s))

def print (a : Address) : String := Text.Hex.marked a.bytes

instance : ToString Address := ⟨print⟩

theorem paddedLength (a : Address) : (List.replicate 12 0 ++ a.bytes).length = 32 := by
  simp [a.size]

def word (a : Address) : Word := ⟨List.replicate 12 0 ++ a.bytes, paddedLength a⟩

instance : Wire Address where
  toJson a := .text (toString a)
  ofJson? json := do (parse (← json.text?)).toOption

end Address

end TokenBridge
