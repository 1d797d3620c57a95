import TokenBridge.Claim
/-!
The questions that the bridge answers, in their JSON form.
-/
namespace TokenBridge

inductive Query where
  | config
  | pendingAdmin
  | keysByValidator (validator : String)
  | keysByOrchestrator (orchestrator : String)
  | keysBySigner (signer : String)
  | staticValidators
  | isStaticValidator (name : String)
  | validatorPowers
  | attestation (nonce : UInt64) (fingerprint : Blob)
  | attestationsByNonce (nonce : UInt64)
  | claimFingerprint (claim : Claim)
  | lastObserved
  | lastVoted (orchestrator : String)
  | callExecution (scope : Blob) (scopeNonce : UInt64)
  | currentSet
  | setRequest (nonce : UInt64)
  | lastSetRequests (limit : Option UInt32)
  | unconfirmedSets (orchestrator : String)
  | setConfirmation (nonce : UInt64) (orchestrator : String)
  | setConfirmations (nonce : UInt64)
  | setCheckpoint (nonce : UInt64)
  | lastObservedSet
  | batch (token : String) (nonce : UInt64)
  | lastBatches (limit : Option UInt32)
  | unconfirmedBatches (orchestrator : String)
  | batchConfirmations (token : String) (nonce : UInt64)
  | batchCheckpoint (token : String) (nonce : UInt64)
  | transfersOf (sender : String)
  | batchFees
  | pairingOfToken (token : String)
  | pairingOfAsset (key : String)
  | lockedBalance (key : String)
  | parkedDeposits (token : String)
  deriving DecidableEq

namespace Query

def write : Query → Json
  | config => .choice "config" []
  | pendingAdmin => .choice "pending_admin" []
  | keysByValidator validator =>
    .choice "delegate_keys_by_validator" [("validator", toJson validator)]
  | keysByOrchestrator orchestrator =>
    .choice "delegate_keys_by_orchestrator" [("orchestrator", toJson orchestrator)]
  | keysBySigner signer => .choice "delegate_keys_by_eth_address" [("eth_address", toJson signer)]
  | staticValidators => .choice "static_validators" []
  | isStaticValidator name => .choice "is_static_validator" [("address", toJson name)]
  | validatorPowers => .choice "validator_powers" []
  | attestation nonce fingerprint => .choice "attestation"
    [("event_nonce", toJson nonce), ("fingerprint", toJson fingerprint)]
  | attestationsByNonce nonce => .choice "attestations_by_nonce" [("event_nonce", toJson nonce)]
  | claimFingerprint claim => .choice "claim_fingerprint" [("claim", toJson claim)]
  | lastObserved => .choice "last_observed_event_nonce" []
  | lastVoted orchestrator =>
    .choice "last_event_nonce_by_addr" [("orchestrator", toJson orchestrator)]
  | callExecution scope scopeNonce => .choice "logic_call_execution"
    [("invalidation_id", toJson scope), ("invalidation_nonce", toJson scopeNonce)]
  | currentSet => .choice "current_valset" []
  | setRequest nonce => .choice "valset_request" [("nonce", toJson nonce)]
  | lastSetRequests limit => .choice "last_valset_requests" [("limit", toJson limit)]
  | unconfirmedSets orchestrator =>
    .choice "last_pending_valset_request_by_addr" [("orchestrator", toJson orchestrator)]
  | setConfirmation nonce orchestrator => .choice "valset_confirm"
    [("nonce", toJson nonce), ("orchestrator", toJson orchestrator)]
  | setConfirmations nonce => .choice "valset_confirms_by_nonce" [("nonce", toJson nonce)]
  | setCheckpoint nonce => .choice "valset_checkpoint" [("nonce", toJson nonce)]
  | lastObservedSet => .choice "last_observed_valset" []
  | batch token nonce => .choice "batch"
    [("token_contract", toJson token), ("nonce", toJson nonce)]
  | lastBatches limit => .choice "last_batches" [("limit", toJson limit)]
  | unconfirmedBatches orchestrator =>
    .choice "last_pending_batch_request_by_addr" [("orchestrator", toJson orchestrator)]
  | batchConfirmations token nonce => .choice "batch_confirms"
    [("token_contract", toJson token), ("nonce", toJson nonce)]
  | batchCheckpoint token nonce => .choice "batch_checkpoint"
    [("token_contract", toJson token), ("nonce", toJson nonce)]
  | transfersOf sender => .choice "pending_send_to_eth" [("sender", toJson sender)]
  | batchFees => .choice "batch_fees" []
  | pairingOfToken token => .choice "erc20_to_denom" [("erc20", toJson token)]
  | pairingOfAsset key => .choice "denom_to_erc20" [("denom", toJson key)]
  | lockedBalance key => .choice "locked_balance" [("denom", toJson key)]
  | parkedDeposits token => .choice "pending_deposits" [("token_contract", toJson token)]

def bare (content : Json) (query : Query) : Option Query := do
  let _ ← content.fields? []
  return query

def single {α : Type} [Wire α] (content : Json) (name : String) (query : α → Query) :
    Option Query := do
  let fields ← content.fields? [name]
  return query (← fields.read name)

def singleOptional {α : Type} [Wire α] (content : Json) (name : String)
    (query : Option α → Query) : Option Query := do
  let fields ← content.fields? [name]
  return query (← fields.readOptional name)

def double {α β : Type} [Wire α] [Wire β] (content : Json) (first second : String)
    (query : α → β → Query) : Option Query := do
  let fields ← content.fields? [first, second]
  return query (← fields.read first) (← fields.read second)

def read (json : Json) : Option Query := do
  let (name, content) ← json.choice?
  match name with
  | "config" => bare content config
  | "pending_admin" => bare content pendingAdmin
  | "delegate_keys_by_validator" => single content "validator" keysByValidator
  | "delegate_keys_by_orchestrator" => single content "orchestrator" keysByOrchestrator
  | "delegate_keys_by_eth_address" => single content "eth_address" keysBySigner
  | "static_validators" => bare content staticValidators
  | "is_static_validator" => single content "address" isStaticValidator
  | "validator_powers" => bare content validatorPowers
  | "attestation" => double content "event_nonce" "fingerprint" attestation
  | "attestations_by_nonce" => single content "event_nonce" attestationsByNonce
  | "claim_fingerprint" => single content "claim" claimFingerprint
  | "last_observed_event_nonce" => bare content lastObserved
  | "last_event_nonce_by_addr" => single content "orchestrator" lastVoted
  | "logic_call_execution" =>
    double content "invalidation_id" "invalidation_nonce" callExecution
  | "current_valset" => bare content currentSet
  | "valset_request" => single content "nonce" setRequest
  | "last_valset_requests" => singleOptional content "limit" lastSetRequests
  | "last_pending_valset_request_by_addr" => single content "orchestrator" unconfirmedSets
  | "valset_confirm" => double content "nonce" "orchestrator" setConfirmation
  | "valset_confirms_by_nonce" => single content "nonce" setConfirmations
  | "valset_checkpoint" => single content "nonce" setCheckpoint
  | "last_observed_valset" => bare content lastObservedSet
  | "batch" => double content "token_contract" "nonce" batch
  | "last_batches" => singleOptional content "limit" lastBatches
  | "last_pending_batch_request_by_addr" => single content "orchestrator" unconfirmedBatches
  | "batch_confirms" => double content "token_contract" "nonce" batchConfirmations
  | "batch_checkpoint" => double content "token_contract" "nonce" batchCheckpoint
  | "pending_send_to_eth" => single content "sender" transfersOf
  | "batch_fees" => bare content batchFees
  | "erc20_to_denom" => single content "erc20" pairingOfToken
  | "denom_to_erc20" => single content "denom" pairingOfAsset
  | "locked_balance" => single content "denom" lockedBalance
  | "pending_deposits" => single content "token_contract" parkedDeposits
  | _ => none

instance : Wire Query := ⟨write, read⟩

end Query

end TokenBridge
