import TokenBridge.Claim
import TokenBridge.SortedMap.Basic
import TokenBridge.Transfer
/-!
What the bridge keeps. Numbers that were never written count as zero, and tables list their entries by
key: numbers by value, accounts and denominations by their bytes, addresses and hashes by theirs.
-/
namespace TokenBridge

/-- What becomes of a second content at a nonce that is still pending. -/
inductive ConflictPolicy where
  | reject
  | trackConcurrent
  deriving DecidableEq, Repr

instance : Wire ConflictPolicy where
  toJson
    | .reject => .text "reject"
    | .trackConcurrent => .text "track_concurrent"
  ofJson?
    | .text "reject" => some .reject
    | .text "track_concurrent" => some .trackConcurrent
    | _ => none

structure Config where
  admin : Account
  paused : Bool
  bridgeId : String
  driftThreshold : Decimal
  minimumTransfer : Amount
  minimumFee : Amount
  maxBatchSize : UInt32
  batchTimeoutBlocks : UInt64
  conflictPolicy : ConflictPolicy
  reward : Option AssetAmount
  deriving DecidableEq

structure PendingAdmin where
  account : Account
  executeAfter : UInt64
  deriving DecidableEq

structure Attestation where
  claim : Claim
  votes : List Account
  observed : Bool
  height : UInt64
  deriving DecidableEq

structure ParkedDeposit where
  nonce : UInt64
  receiver : Account
  amount : Amount
  deriving DecidableEq

structure SetConfirmation where
  nonce : UInt64
  orchestrator : Account
  signer : Address
  signature : Blob
  deriving DecidableEq

structure BatchConfirmation where
  nonce : UInt64
  token : Address
  orchestrator : Account
  signer : Address
  signature : Blob
  deriving DecidableEq

/-- An ERC20 and its counterpart here. Assets of this chain are locked and unlocked, assets of Ethereum
minted and burned. -/
structure Pairing where
  token : Address
  asset : Asset
  ofThisChain : Bool
  deriving DecidableEq

instance : Wire Pairing where
  toJson p := .record
    [("erc20", toJson p.token), ("asset", toJson p.asset),
      ("cosmos_originated", toJson p.ofThisChain)]
  ofJson? json := do
    let fields ← json.fields? ["erc20", "asset", "cosmos_originated"]
    return {
      token := ← fields.read "erc20"
      asset := ← fields.read "asset"
      ofThisChain := ← fields.read "cosmos_originated" }

/-- A place in the fee queue: the token, the headroom of the fee, the transfer. Ascending, these put
the highest fee of a token first, and of equal fees the lowest number. -/
abbrev FeePlace := Address × Amount × UInt64

structure Store where
  config : Option Config
  pendingAdmin : Option PendingAdmin
  signerOf : SortedMap Account Address
  validatorOfSigner : SortedMap Address Account
  validatorOf : SortedMap Account Account
  orchestratorOf : SortedMap Account Account
  staticValidators : SortedMap Account Unit
  powers : SortedMap Account UInt64
  totalPower : UInt64
  attestations : SortedMap (UInt64 × Word) Attestation
  observedNonce : UInt64
  ethHeight : UInt64
  lastVoted : SortedMap Account UInt64
  executedCalls : SortedMap (Bytes × UInt64) UInt64
  parked : SortedMap (Address × UInt64) ParkedDeposit
  signerSets : SortedMap UInt64 SignerSet
  latestSet : UInt64
  setConfirmations : SortedMap (UInt64 × Account) SetConfirmation
  observedSet : Option SignerSet
  lastTransfer : UInt64
  pool : SortedMap UInt64 Transfer
  feeQueue : SortedMap FeePlace Unit
  batches : SortedMap (Address × UInt64) Batch
  lastBatch : SortedMap Address UInt64
  batchConfirmations : SortedMap (Address × UInt64 × Account) BatchConfirmation
  locked : SortedMap String Amount
  pairings : SortedMap Address Pairing
  tokenOf : SortedMap String Address
  deriving DecidableEq

namespace Store

def empty : Store where
  config := none
  pendingAdmin := none
  signerOf := ∅
  validatorOfSigner := ∅
  validatorOf := ∅
  orchestratorOf := ∅
  staticValidators := ∅
  powers := ∅
  totalPower := 0
  attestations := ∅
  observedNonce := 0
  ethHeight := 0
  lastVoted := ∅
  executedCalls := ∅
  parked := ∅
  signerSets := ∅
  latestSet := 0
  setConfirmations := ∅
  observedSet := none
  lastTransfer := 0
  pool := ∅
  feeQueue := ∅
  batches := ∅
  lastBatch := ∅
  batchConfirmations := ∅
  locked := ∅
  pairings := ∅
  tokenOf := ∅

instance : Inhabited Store := ⟨empty⟩

def isStatic (s : Store) (account : Account) : Bool := s.staticValidators.contains account

def batched (s : Store) : List Transfer := s.batches.values.flatMap Batch.transfers

end Store

end TokenBridge
