import TokenBridge.Address
import TokenBridge.Keccak
/-!
Tagged records as byte strings. A number or an address takes one word; a byte string takes a word for
its length and then its bytes, filled up with zeros to a whole number of words. The tag stands
first, as a byte string, so records of different kinds never share an encoding.
-/
namespace TokenBridge.Encoding

inductive Field where
  | number (n : Nat)
  | address (a : Address)
  | octets (raw : Bytes)
  | text (s : String)
  deriving DecidableEq

def wordOf (n : Nat) : Bytes := (Word.ofNat n).bytes

def gap (length : Nat) : Nat := (32 - length % 32) % 32

def octets (raw : Bytes) : Bytes :=
  wordOf raw.length ++ raw ++ List.replicate (gap raw.length) 0

def Field.encode : Field → Bytes
  | number n => wordOf n
  | address a => a.word.bytes
  | octets raw => Encoding.octets raw
  | text s => Encoding.octets (Text.utf8 s)

def record (tag : String) (fields : List Field) : Bytes :=
  octets (Text.utf8 tag) ++ fields.flatMap Field.encode

def hash (tag : String) (fields : List Field) : Word := Keccak.hash (record tag fields)

end TokenBridge.Encoding
