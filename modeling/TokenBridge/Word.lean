import TokenBridge.Key
import TokenBridge.Text.Hex
/-!
Words of 32 bytes, the unit of every byte string that is hashed. Numbers are big-endian; shorter byte
strings are filled up with zeros on the right.
-/
namespace TokenBridge

structure Word where
  bytes : Bytes
  size : bytes.length = 32
  deriving DecidableEq

namespace Word

theorem ext {a b : Word} (h : a.bytes = b.bytes) : a = b := by
  cases a; cases b; cases h; rfl

def bigEndian : Nat → Nat → Bytes
  | 0, _ => []
  | width + 1, n => bigEndian width (n / 256) ++ [UInt8.ofNat n]

theorem lengthBigEndian (width n : Nat) : (bigEndian width n).length = width := by
  induction width generalizing n with
  | zero => rfl
  | succ width ih => simp [bigEndian, ih]

def ofNat (n : Nat) : Word := ⟨bigEndian 32 n, lengthBigEndian 32 n⟩

def padRight (raw : Bytes) : Word := ⟨(raw ++ List.replicate 32 0).take 32, by simp⟩

def ofBytes? (raw : Bytes) : Option Word :=
  if h : raw.length = 32 then some ⟨raw, h⟩ else none

def hex (w : Word) : String := Text.Hex.marked w.bytes

instance : ToString Word := ⟨hex⟩

instance : Key Word := Key.via Word.bytes fun _ _ => ext

end Word

end TokenBridge
