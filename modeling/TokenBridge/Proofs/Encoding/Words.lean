import TokenBridge.Encoding
import Mathlib.Algebra.GroupWithZero.Nat
/-!
What a word says: its bytes are the digits of a number to the base 256, and below 256^32 the number can be read
back.
-/
namespace TokenBridge.Word

variable {width n m : Nat} {raw : Bytes}

def value (raw : Bytes) : Nat := raw.foldl (fun n b => 256 * n + b.toNat) 0

theorem valueSnoc (raw : Bytes) (b : UInt8) : value (raw ++ [b]) = 256 * value raw + b.toNat := by
  simp [value, List.foldl_append]

theorem valueBigEndian (width n : Nat) : value (bigEndian width n) = n % 256 ^ width := by
  induction width generalizing n with
  | zero => simp [bigEndian, value, Nat.mod_one]
  | succ width ih =>
    rw [bigEndian, valueSnoc, ih, Nat.pow_succ', Nat.mod_mul, UInt8.toNat_ofNat']
    omega

theorem bigEndianValue (short : raw.length ≤ width) :
    bigEndian width (value raw) = List.replicate (width - raw.length) 0 ++ raw := by
  induction width generalizing raw with
  | zero =>
    have empty : raw = [] := List.eq_nil_of_length_eq_zero (Nat.le_zero.1 short)
    simp [empty, bigEndian]
  | succ width ih =>
    rcases List.eq_nil_or_concat raw with rfl | ⟨front, last, rfl⟩
    · have zeros : bigEndian width (value []) = List.replicate width 0 ++ [] := ih (Nat.zero_le _)
      rw [List.append_nil] at zeros
      rw [List.length_nil, Nat.sub_zero, List.append_nil, List.replicate_succ', ← zeros]
      rfl
    · simp only [List.concat_eq_append, List.length_append, List.length_singleton] at short ⊢
      have high : (256 * value front + last.toNat) / 256 = value front := by
        have := last.toNat_lt
        omega
      have low : UInt8.ofNat (256 * value front + last.toNat) = last := by
        refine UInt8.toNat_inj.1 ?_
        have := last.toNat_lt
        rw [UInt8.toNat_ofNat']
        omega
      rw [valueSnoc, bigEndian, high, low, ih (by omega), Nat.add_sub_add_right, List.append_assoc]

theorem ofNatInjective (below : n < 256 ^ 32) (below' : m < 256 ^ 32) (same : ofNat n = ofNat m) :
    n = m := by
  have values := congrArg (fun w => value w.bytes) same
  simpa only [ofNat, valueBigEndian, Nat.mod_eq_of_lt, below, below'] using values

end TokenBridge.Word
