import TokenBridge.Checkpoint
import TokenBridge.Proofs.Encoding.Words
/-!
The standard encoding of call arguments on Ethereum, in heads and tails, and the checkpoints in it. A static value
stands in its head; the head of an array says where its tail begins, and the tail is its length and its
elements.
-/
namespace TokenBridge

namespace Abi

inductive Static where
  | bytes32 (raw : Bytes) (fits : raw.length ≤ 32)
  | uint256 (n : Nat)
  | address (a : Address)

inductive Argument where
  | static (value : Static)
  | array (elements : List Static)

def digits (n : Nat) : Bytes := (List.range 32).reverse.map fun place => UInt8.ofNat (n / 256 ^ place)

/-- Bytes are filled up with zeros on the right; an address is encoded as the number that it stands for. -/
def Static.encode : Static → Bytes
  | bytes32 raw _ => raw ++ List.replicate (32 - raw.length) 0
  | uint256 n => digits n
  | address a => digits (Word.value a.bytes)

def Argument.tail : Argument → Bytes
  | static _ => []
  | array elements => digits elements.length ++ elements.flatMap Static.encode

def Argument.head (offset : Nat) : Argument → Bytes
  | static value => value.encode
  | array _ => digits offset

/-- Where the tail of an argument begins: behind all heads and the tails of the arguments before it. -/
def offset (arguments : List Argument) (i : Nat) : Nat :=
  32 * arguments.length + ((arguments.take i).flatMap Argument.tail).length

def encode (arguments : List Argument) : Bytes :=
  (arguments.mapIdx fun i a => a.head (offset arguments i)).flatten
    ++ arguments.flatMap Argument.tail

theorem bigEndianDigits (width n : Nat) :
    Word.bigEndian width n = (List.range width).reverse.map fun place => UInt8.ofNat (n / 256 ^ place) := by
  induction width generalizing n with
  | zero => rfl
  | succ width ih =>
    rw [Word.bigEndian, ih, List.range_succ_eq_map, List.reverse_cons, List.map_append, ← List.map_reverse]
    simp [Function.comp_def, Nat.div_div_eq_div_mul, Nat.pow_succ']

theorem digitsWord (n : Nat) : digits n = (Word.ofNat n).bytes := (bigEndianDigits 32 n).symm

@[simp] theorem lengthDigits (n : Nat) : (digits n).length = 32 := by simp [digits]

@[simp] theorem lengthStatic (value : Static) : value.encode.length = 32 := by
  cases value with
  | bytes32 raw fits => simp [Static.encode, fits]
  | uint256 n => exact lengthDigits n
  | address a => exact lengthDigits _

theorem addressWord (a : Address) : (Static.address a).encode = a.word.bytes := by
  have fits : a.bytes.length ≤ 32 := by simp [a.size]
  have padded := Word.bigEndianValue fits
  rw [a.size] at padded
  exact (digitsWord _).trans padded

theorem numberWord (n : Nat) : (Static.uint256 n).encode = (Word.ofNat n).bytes := digitsWord n

theorem bytesWord (raw : Bytes) (fits : raw.length ≤ 32) :
    (Static.bytes32 raw fits).encode = (Word.padRight raw).bytes := by
  have zeros : List.replicate (32 - raw.length) (0 : UInt8) =
      (List.replicate 32 0).take (32 - raw.length) := by
    rw [List.take_replicate, Nat.min_eq_left (Nat.sub_le ..)]
  simp only [Static.encode, Word.padRight, List.take_append, List.take_of_length_le fits, zeros]

theorem padRightWord (w : Word) : Word.padRight w.bytes = w :=
  Word.ext (by simp [Word.padRight, w.size])

@[simp] theorem headStatic (offset : Nat) (value : Static) :
    (Argument.static value).head offset = value.encode := rfl

@[simp] theorem headArray (offset : Nat) (elements : List Static) :
    (Argument.array elements).head offset = digits offset := rfl

@[simp] theorem tailStatic (value : Static) : (Argument.static value).tail = [] := rfl

@[simp] theorem lengthTail (elements : List Static) :
    (Argument.array elements).tail.length = 32 * (elements.length + 1) := by
  have sum : (elements.map fun _ => 32).sum = 32 * elements.length := by
    simp [List.map_const', Nat.mul_comm]
  simp only [Argument.tail, List.length_append, List.length_flatMap, lengthDigits, lengthStatic, sum]
  omega

theorem lengthHeads (arguments : List Argument) (offsetAt : Nat → Nat) :
    (arguments.mapIdx fun i a => a.head (offsetAt i)).flatten.length = 32 * arguments.length := by
  have word (a : Argument) (offset : Nat) : (a.head offset).length = 32 := by
    cases a <;> simp
  simp [List.length_flatten, List.mapIdx_eq_zipIdx_map, word, Function.comp_def, List.map_const',
    Nat.mul_comm]

/-- What an offset promises: there the tail begins. -/
theorem tailAtOffset (before after : List Argument) (a : Argument) :
    a.tail <+: (encode (before ++ a :: after)).drop (offset (before ++ a :: after) before.length) := by
  refine ⟨after.flatMap Argument.tail, ?_⟩
  have earlier : ((before ++ a :: after).take before.length).flatMap Argument.tail =
      before.flatMap Argument.tail := by simp
  rw [encode, offset, earlier, ← lengthHeads _ (offset (before ++ a :: after)),
    List.drop_length_add_append]
  simp

theorem listedTail {elements : List Static} {words : List Word}
    (same : elements.map Static.encode = words.map Word.bytes) :
    (Argument.array elements).tail = Checkpoint.preimage (Checkpoint.listed words) := by
  have count : elements.length = words.length := by
    simpa using congrArg List.length same
  rw [Argument.tail, Checkpoint.listed, Checkpoint.preimage, List.flatMap_cons, count, digitsWord,
    List.flatMap_def, same, List.flatMap_def]

end Abi

namespace Checkpoint

open Abi

/-- `(bytes32, bytes32, uint256, address[], uint256[], uint256, address)` -/
def signerSetArguments (bridge : Word) (nonce : UInt64) (members : List Signer) (rewardAmount : Amount)
    (rewardToken : Address) : List Argument :=
  [.static (.bytes32 bridge.bytes (Nat.le_of_eq bridge.size)),
    .static (.bytes32 (Text.utf8 "checkpoint") (by decide)),
    .static (.uint256 nonce.toNat),
    .array (members.map fun m => .address m.address),
    .array (members.map fun m => .uint256 m.power.toNat),
    .static (.uint256 rewardAmount.val),
    .static (.address rewardToken)]

/-- `(bytes32, bytes32, uint256[], address[], uint256[], uint256, address, uint256)` -/
def batchArguments (bridge : Word) (b : Batch) : List Argument :=
  [.static (.bytes32 bridge.bytes (Nat.le_of_eq bridge.size)),
    .static (.bytes32 (Text.utf8 "transactionBatch") (by decide)),
    .array (b.transfers.map fun t => .uint256 t.amount.val),
    .array (b.transfers.map fun t => .address t.destination),
    .array (b.transfers.map fun t => .uint256 t.fee.val),
    .static (.uint256 b.nonce.toNat),
    .static (.address b.token),
    .static (.uint256 b.timeout.toNat)]

theorem addressesTail {α : Type} (xs : List α) (address : α → Address) :
    (Argument.array (xs.map fun x => .address (address x))).tail =
      preimage (listed (xs.map fun x => (address x).word)) :=
  listedTail (by simp [addressWord])

theorem numbersTail {α : Type} (xs : List α) (number : α → Nat) :
    (Argument.array (xs.map fun x => .uint256 (number x))).tail =
      preimage (listed (xs.map fun x => Word.ofNat (number x))) :=
  listedTail (by simp [Static.encode, digitsWord])

theorem preimageAppend (ws vs : List Word) : preimage (ws ++ vs) = preimage ws ++ preimage vs :=
  List.flatMap_append

theorem preimageCons (w : Word) (ws : List Word) : preimage (w :: ws) = w.bytes ++ preimage ws := rfl

theorem signerSetEncoding (bridge : Word) (nonce : UInt64) (members : List Signer) (rewardAmount : Amount)
    (rewardToken : Address) :
    preimage (signerSetWords bridge nonce members rewardAmount rewardToken) =
      Abi.encode (signerSetArguments bridge nonce members rewardAmount rewardToken) := by
  simp [signerSetWords, preimageCons, ← addressesTail, ← numbersTail, Abi.encode, signerSetArguments, offset,
    label, bytesWord, padRightWord, addressWord, numberWord, digitsWord, preimageAppend]

theorem batchEncoding (bridge : Word) (b : Batch) :
    preimage (batchWords bridge b) = Abi.encode (batchArguments bridge b) := by
  simp [batchWords, preimageCons, ← addressesTail, ← numbersTail, Abi.encode, batchArguments, offset,
    label, bytesWord, padRightWord, addressWord, numberWord, digitsWord, preimageAppend, Nat.two_mul]

theorem argumentsEncoded :
    (∀ bridge nonce members rewardAmount rewardToken,
      preimage (signerSetWords bridge nonce members rewardAmount rewardToken) =
          Abi.encode (signerSetArguments bridge nonce members rewardAmount rewardToken) ∧
        ofSigners bridge nonce members rewardAmount rewardToken =
          Keccak.hash (Abi.encode
            (signerSetArguments bridge nonce members rewardAmount rewardToken))) ∧
    ∀ bridge b, preimage (batchWords bridge b) = Abi.encode (batchArguments bridge b) ∧
      ofBatch bridge b = Keccak.hash (Abi.encode (batchArguments bridge b)) := by
  constructor
  · intro bridge nonce members rewardAmount rewardToken
    have encoded := signerSetEncoding bridge nonce members rewardAmount rewardToken
    exact ⟨encoded, congrArg Keccak.hash encoded⟩
  · intro bridge b
    have encoded := batchEncoding bridge b
    exact ⟨encoded, congrArg Keccak.hash encoded⟩

end Checkpoint

end TokenBridge
