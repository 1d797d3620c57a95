import TokenBridge.Encoding
import TokenBridge.SignerSet.Basic
import TokenBridge.Transfer
/-!
The hashes that signers sign. What is hashed is a list of words: the fixed arguments, with the byte
offset of each list in the place of the list, then every list behind its length.
-/
namespace TokenBridge.Checkpoint

/-- The identifier of the bridge as a word: 1 to 32 bytes, zeros on the right. The error is the number of
bytes. -/
def bridgeWord (id : String) : Except Nat Word :=
  let raw := Text.utf8 id
  if raw.length = 0 ∨ 32 < raw.length then .error raw.length else .ok (Word.padRight raw)

def label (method : String) : Word := Word.padRight (Text.utf8 method)

def listed (words : List Word) : List Word := Word.ofNat words.length :: words

def signerSetWords (bridge : Word) (nonce : UInt64) (members : List Signer) (rewardAmount : Amount)
    (rewardToken : Address) : List Word :=
  [bridge, label "checkpoint", Word.ofNat nonce.toNat,
    Word.ofNat 224, Word.ofNat (224 + 32 * (members.length + 1)),
    Word.ofNat rewardAmount.val, rewardToken.word]
    ++ listed (members.map fun m => m.address.word)
    ++ listed (members.map fun m => Word.ofNat m.power.toNat)

def batchWords (bridge : Word) (b : Batch) : List Word :=
  let listSize := 32 * (b.transfers.length + 1)
  [bridge, label "transactionBatch",
    Word.ofNat 256, Word.ofNat (256 + listSize), Word.ofNat (256 + 2 * listSize),
    Word.ofNat b.nonce.toNat, b.token.word, Word.ofNat b.timeout.toNat]
    ++ listed (b.transfers.map fun t => Word.ofNat t.amount.val)
    ++ listed (b.transfers.map fun t => t.destination.word)
    ++ listed (b.transfers.map fun t => Word.ofNat t.fee.val)

def preimage (words : List Word) : Bytes := words.flatMap Word.bytes

def ofSigners (bridge : Word) (nonce : UInt64) (members : List Signer) (rewardAmount : Amount)
    (rewardToken : Address) : Word :=
  Keccak.hash (preimage (signerSetWords bridge nonce members rewardAmount rewardToken))

def ofSignerSet (bridge : Word) (s : SignerSet) : Word :=
  ofSigners bridge s.nonce s.canonical.members s.rewardAmount s.rewardToken

def ofBatch (bridge : Word) (b : Batch) : Word := Keccak.hash (preimage (batchWords bridge b))

end TokenBridge.Checkpoint
