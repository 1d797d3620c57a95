import TokenBridge.Address
/-!
Written addresses read back. Every written digit is one byte that reads as its number, so what is written of a byte
string is read as that string.
-/
namespace TokenBridge

namespace Text

theorem utf8OfList (cs : List Char) : utf8 (String.ofList cs) = cs.flatMap String.utf8EncodeChar := by
  simp [utf8, List.utf8Encode]

namespace Hex

theorem digitByte {n : Nat} (small : n < 16) :
    ∃ b, String.utf8EncodeChar (digit n) = [b] ∧ nibble? b = some (UInt8.ofNat n) := by
  have listed : ∀ n < 16, (String.utf8EncodeChar (digit n)).map nibble? = [some (UInt8.ofNat n)] := by
    decide
  obtain ⟨b, _, encoded, here, none⟩ := List.map_eq_cons_iff.1 (listed n small)
  rw [List.map_eq_nil_iff.1 none] at encoded
  exact ⟨b, encoded, here⟩

theorem writeByte (b : UInt8) (rest : Bytes) : ∃ high low,
    utf8 (String.ofList (write (b :: rest))) = high :: low :: utf8 (String.ofList (write rest)) ∧
      nibble? high = some (UInt8.ofNat (b.toNat / 16)) ∧ nibble? low = some (UInt8.ofNat (b.toNat % 16)) := by
  have bound := b.toNat_lt
  obtain ⟨high, first, highest⟩ := digitByte (n := b.toNat / 16) (by omega)
  obtain ⟨low, second, lowest⟩ := digitByte (n := b.toNat % 16) (by omega)
  refine ⟨high, low, ?_, highest, lowest⟩
  rw [utf8OfList, utf8OfList, write, List.flatMap_cons, List.flatMap_cons, first, second]
  rfl

theorem digitsLength (raw : Bytes) : (utf8 (String.ofList (write raw))).length = 2 * raw.length := by
  induction raw with
  | nil => rfl
  | cons b rest ih =>
    obtain ⟨_, _, digits, _⟩ := writeByte b rest
    rw [digits, List.length_cons, List.length_cons, ih, List.length_cons]
    omega

theorem readWritten (position : Nat) (raw : Bytes) :
    readFrom position (utf8 (String.ofList (write raw))) = .ok raw := by
  induction raw generalizing position with
  | nil => rfl
  | cons b rest ih =>
    obtain ⟨high, low, digits, highest, lowest⟩ := writeByte b rest
    have whole : 16 * UInt8.ofNat (b.toNat / 16) + UInt8.ofNat (b.toNat % 16) = b := by
      have bound := b.toNat_lt
      have base : (16 : UInt8).toNat = 16 := rfl
      refine UInt8.toNat_inj.1 ?_
      simp only [UInt8.toNat_add, UInt8.toNat_mul, UInt8.toNat_ofNat', base]
      omega
    rw [digits]
    simp only [readFrom, nibbleAt, highest, lowest, ih, bind, Except.bind, pure, Except.pure, whole]

end Hex

end Text

namespace Address

theorem unmarkedWritten (raw : Bytes) :
    unmarked (Text.utf8 (Text.Hex.marked raw)) = Text.utf8 (String.ofList (Text.Hex.write raw)) := by
  rw [Text.Hex.marked, Text.utf8OfList, Text.utf8OfList]
  rfl

theorem parsePrint (a : Address) : parse (toString a) = .ok a := by
  have digits : (Text.utf8 (String.ofList (Text.Hex.write a.bytes))).length = 40 := by
    rw [Text.Hex.digitsLength, a.size]
  have read : Text.Hex.read (Text.utf8 (String.ofList (Text.Hex.write a.bytes))) = .ok a.bytes :=
    Text.Hex.readWritten 0 a.bytes
  show ofDigits (unmarked (Text.utf8 (Text.Hex.marked a.bytes))) = .ok a
  rw [unmarkedWritten, ofDigits, dif_pos digits]
  split
  · rename_i bytes found
    rw [read] at found
    cases found
    rfl
  · rename_i digit found
    rw [read] at found
    cases found

end Address

end TokenBridge
