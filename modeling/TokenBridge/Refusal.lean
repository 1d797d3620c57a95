import TokenBridge.Claim
import TokenBridge.Decimal
/-!
Why the bridge refuses a message or a query, each cause with what it is about, and the wording of it.
-/
namespace TokenBridge

inductive PairingFault where
  | tokenTaken (token : Address)
  | assetTaken (key : String)
  deriving DecidableEq

def PairingFault.message : PairingFault → String
  | tokenTaken token => s!"erc20 {token} already registered"
  | assetTaken key => s!"{key} already mapped to an erc20"

inductive AmountFault where
  | notOneCoin
  | feeExceeds (fee sent : Amount)
  | nothingLeft
  | noElements
  | sameFee (fee : Amount)
  deriving DecidableEq

def AmountFault.message : AmountFault → String
  | notOneCoin => "exactly one coin must be sent"
  | feeExceeds fee sent => s!"fee {fee} exceeds sent amount {sent}"
  | nothingLeft => "transfer amount must be positive"
  | noElements => "max_elements must be positive"
  | sameFee fee => s!"minimum fee is already {fee}"

inductive ConfigFault where
  | bridgeId (bytes : Nat)
  | drift (threshold : Decimal)
  | batchSize
  | pairing (fault : PairingFault)
  deriving DecidableEq

def ConfigFault.message : ConfigFault → String
  | bridgeId bytes => s!"gravity_id must be 1-32 bytes, got {bytes}"
  | drift threshold => s!"valset drift threshold {threshold} outside (0, 1]"
  | batchSize => "max batch size must be positive"
  | pairing fault => fault.message

inductive Lookup where
  | validator
  | signer
  | orchestrator
  deriving DecidableEq, Repr

def Lookup.message : Lookup → String
  | validator => "validator not found"
  | signer => "eth address not found"
  | orchestrator => "orchestrator not found"

inductive Refusal where
  | malformed
  | absent
  | notFound (sought : Lookup)
  | badAccount (fault : AccountFault)
  | relayed (cause : Refusal)
  | notAdmin
  | notPendingAdmin
  | notStatic (account : Account)
  | notBonded (account : Account)
  | unknownOrchestrator (account : Account)
  | notSender (id : UInt64)
  | noPendingAdmin
  | timelocked (seconds : UInt64)
  | paused
  | signerAlreadySet (validator : Account)
  | orchestratorBound (orchestrator : Account)
  | signerInUse (address : Address)
  | signerNotSet (validator : Account)
  | badAddress (fault : AddressFault)
  | badAmount (fault : AmountFault)
  | badClaim (fault : ClaimFault)
  | badConfig (fault : ConfigFault)
  | wrongNonce (expected got : UInt64)
  | againstObserved (nonce : UInt64)
  | conflicting (nonce : UInt64)
  | duplicateVote (validator : Account) (nonce : UInt64)
  | setNotFound (nonce : UInt64)
  | emptySet
  | duplicateConfirmation (orchestrator : Account)
  | signerMismatch (expected got : Address)
  | unsupported (key : String)
  | belowMinimum (amount minimum : Amount)
  | belowMinimumFee (fee minimum : Amount)
  | noEthHeight
  | emptyBatch (token : Address)
  | batchNotFound (token : Address) (nonce : UInt64)
  | transferNotFound (id : UInt64)
  | transferBatched (id : UInt64)
  deriving DecidableEq

/-- Text that cannot be read and a value that was never stored have no wording of their own, nor has a
refusal that only relays one of these. -/
def Refusal.message : Refusal → Option String
  | malformed => none
  | absent => none
  | notFound sought => some sought.message
  | badAccount fault => some s!"Generic error: {fault.message}"
  | relayed cause => cause.message.map fun text => s!"Generic error: {text}"
  | notAdmin => some "Unauthorized: only admin can perform this action"
  | notPendingAdmin => some "Unauthorized: only pending admin can accept"
  | notStatic account => some s!"Unauthorized: {account} is not a static validator"
  | notBonded account => some s!"Unauthorized: {account} has no bonded power"
  | unknownOrchestrator account =>
    some s!"Unauthorized: orchestrator {account} is not bound to a validator"
  | notSender id => some s!"Unauthorized: only the sender can cancel transfer {id}"
  | noPendingAdmin => some "No pending admin change"
  | timelocked seconds => some s!"Timelock not expired: {seconds} seconds remaining"
  | paused => some "Bridge is paused"
  | signerAlreadySet validator => some s!"Ethereum address already set for validator {validator}"
  | orchestratorBound orchestrator =>
    some s!"Orchestrator {orchestrator} already bound to a validator"
  | signerInUse address => some s!"Ethereum address {address} already bound to a validator"
  | signerNotSet validator => some s!"Ethereum address not set for validator {validator}"
  | badAddress fault => some s!"Invalid Ethereum address: {fault.message}"
  | badAmount fault => some s!"Invalid amount: {fault.message}"
  | badClaim fault => some s!"Invalid claim: {fault.message}"
  | badConfig fault => some s!"Invalid config: {fault.message}"
  | wrongNonce expected got => some s!"Non contiguous event nonce: expected {expected}, got {got}"
  | againstObserved nonce =>
    some s!"Claim at nonce {nonce} conflicts with the observed attestation"
  | conflicting nonce => some s!"Conflicting claim at pending nonce {nonce}"
  | duplicateVote validator nonce =>
    some s!"Duplicate vote from validator {validator} at nonce {nonce}"
  | setNotFound nonce => some s!"Valset not found: nonce {nonce}"
  | emptySet => some "No validators with bound Ethereum addresses and power"
  | duplicateConfirmation orchestrator =>
    some s!"Confirmation already submitted by {orchestrator}"
  | signerMismatch expected got => some s!"Signer mismatch: expected {expected}, got {got}"
  | unsupported key => some s!"Token not supported: {key}"
  | belowMinimum amount minimum => some s!"Amount {amount} below minimum transfer {minimum}"
  | belowMinimumFee fee minimum => some s!"Fee {fee} below minimum fee {minimum}"
  | noEthHeight => some "No Ethereum height observed yet; batches cannot be timed"
  | emptyBatch token => some s!"No unbatched transfers for token contract {token}"
  | batchNotFound token nonce => some s!"Batch not found: {token} nonce {nonce}"
  | transferNotFound id => some s!"Outgoing transfer not found: {id}"
  | transferBatched id => some s!"Outgoing transfer {id} is already in a batch"

end TokenBridge
