import TokenBridge.Admin
import TokenBridge.Claim
import TokenBridge.Directory
/-!
The messages that change the bridge, in their JSON form. Ethereum addresses and accounts in them are
plain text here; whoever carries the message out reads them.
-/
namespace TokenBridge

inductive Message where
  | setOrchestrator (orchestrator signer : String)
  | addStaticValidator (name : String)
  | updatePowers (reports : List StakeReport)
  | submitClaim (claim : Claim)
  | processAttestations
  | requestSet
  | confirmSet (nonce : UInt64) (signer : String) (signature : Blob)
  | endBlock
  | sendToEth (destination : String) (fee : Amount)
  | receive (sender : String) (amount : Amount) (payload : Blob)
  | cancelTransfer (id : UInt64)
  | requestBatch (token : String) (limit : Option UInt32)
  | confirmBatch (nonce : UInt64) (token signer : String) (signature : Blob)
  | registerToken (token cw20 : String)
  | updateConfig (change : ConfigChange)
  | setMinimumFee (fee : Amount)
  | pause
  | unpause
  | proposeAdmin (name : String)
  | acceptAdmin
  | cancelProposal
  deriving DecidableEq

namespace Message

def changeFields (c : ConfigChange) : Json.Fields :=
  [("valset_drift_threshold", toJson c.driftThreshold),
    ("minimum_transfer", toJson c.minimumTransfer), ("max_batch_size", toJson c.maxBatchSize),
    ("batch_timeout_blocks", toJson c.batchTimeoutBlocks),
    ("conflict_policy", toJson c.conflictPolicy), ("valset_reward", toJson c.reward)]

def readChange (content : Json) : Option ConfigChange := do
  let fields ← content.fields?
    ["valset_drift_threshold", "minimum_transfer", "max_batch_size", "batch_timeout_blocks",
      "conflict_policy", "valset_reward"]
  return {
    driftThreshold := ← fields.readOptional "valset_drift_threshold"
    minimumTransfer := ← fields.readOptional "minimum_transfer"
    maxBatchSize := ← fields.readOptional "max_batch_size"
    batchTimeoutBlocks := ← fields.readOptional "batch_timeout_blocks"
    conflictPolicy := ← fields.readOptional "conflict_policy"
    reward := ← fields.readOptional "valset_reward" }

def write : Message → Json
  | setOrchestrator orchestrator signer => .choice "set_orchestrator_address"
    [("orchestrator", toJson orchestrator), ("eth_address", toJson signer)]
  | addStaticValidator name => .choice "add_static_validator" [("address", toJson name)]
  | updatePowers reports => .choice "update_validator_powers" [("powers", toJson reports)]
  | submitClaim claim => .choice "submit_claim" [("claim", toJson claim)]
  | processAttestations => .choice "process_attestations" []
  | requestSet => .choice "request_valset" []
  | confirmSet nonce signer signature => .choice "valset_confirm"
    [("nonce", toJson nonce), ("eth_signer", toJson signer), ("signature", toJson signature)]
  | endBlock => .choice "end_block" []
  | sendToEth destination fee => .choice "send_to_eth"
    [("eth_dest", toJson destination), ("bridge_fee", toJson fee)]
  | receive sender amount payload => .choice "receive"
    [("sender", toJson sender), ("amount", toJson amount), ("msg", toJson payload)]
  | cancelTransfer id => .choice "cancel_send_to_eth" [("transaction_id", toJson id)]
  | requestBatch token limit => .choice "request_batch"
    [("token_contract", toJson token), ("max_elements", toJson limit)]
  | confirmBatch nonce token signer signature => .choice "confirm_batch"
    [("nonce", toJson nonce), ("token_contract", toJson token), ("eth_signer", toJson signer),
      ("signature", toJson signature)]
  | registerToken token cw20 => .choice "register_ethereum_token"
    [("token_contract", toJson token), ("cw20", toJson cw20)]
  | updateConfig change => .choice "update_config" (changeFields change)
  | setMinimumFee fee => .choice "set_minimum_fee" [("fee", toJson fee)]
  | pause => .choice "pause" []
  | unpause => .choice "unpause" []
  | proposeAdmin name => .choice "propose_admin" [("new_admin", toJson name)]
  | acceptAdmin => .choice "accept_admin" []
  | cancelProposal => .choice "cancel_admin_proposal" []

def bare (content : Json) (message : Message) : Option Message := do
  let _ ← content.fields? []
  return message

def read (json : Json) : Option Message := do
  let (name, content) ← json.choice?
  match name with
  | "set_orchestrator_address" =>
    let fields ← content.fields? ["orchestrator", "eth_address"]
    return setOrchestrator (← fields.read "orchestrator") (← fields.read "eth_address")
  | "add_static_validator" =>
    let fields ← content.fields? ["address"]
    return addStaticValidator (← fields.read "address")
  | "update_validator_powers" =>
    let fields ← content.fields? ["powers"]
    return updatePowers (← fields.read "powers")
  | "submit_claim" =>
    let fields ← content.fields? ["claim"]
    return submitClaim (← fields.read "claim")
  | "process_attestations" => bare content processAttestations
  | "request_valset" => bare content requestSet
  | "valset_confirm" =>
    let fields ← content.fields? ["nonce", "eth_signer", "signature"]
    return confirmSet (← fields.read "nonce") (← fields.read "eth_signer")
      (← fields.read "signature")
  | "end_block" => bare content endBlock
  | "send_to_eth" =>
    let fields ← content.fields? ["eth_dest", "bridge_fee"]
    return sendToEth (← fields.read "eth_dest") (← fields.read "bridge_fee")
  | "receive" =>
    let fields ← content.fields? ["sender", "amount", "msg"]
    return receive (← fields.read "sender") (← fields.read "amount") (← fields.read "msg")
  | "cancel_send_to_eth" =>
    let fields ← content.fields? ["transaction_id"]
    return cancelTransfer (← fields.read "transaction_id")
  | "request_batch" =>
    let fields ← content.fields? ["token_contract", "max_elements"]
    return requestBatch (← fields.read "token_contract") (← fields.readOptional "max_elements")
  | "confirm_batch" =>
    let fields ← content.fields? ["nonce", "token_contract", "eth_signer", "signature"]
    return confirmBatch (← fields.read "nonce") (← fields.read "token_contract")
      (← fields.read "eth_signer") (← fields.read "signature")
  | "register_ethereum_token" =>
    let fields ← content.fields? ["token_contract", "cw20"]
    return registerToken (← fields.read "token_contract") (← fields.read "cw20")
  | "update_config" => return updateConfig (← readChange content)
  | "set_minimum_fee" =>
    let fields ← content.fields? ["fee"]
    return setMinimumFee (← fields.read "fee")
  | "pause" => bare content pause
  | "unpause" => bare content unpause
  | "propose_admin" =>
    let fields ← content.fields? ["new_admin"]
    return proposeAdmin (← fields.read "new_admin")
  | "accept_admin" => bare content acceptAdmin
  | "cancel_admin_proposal" => bare content cancelProposal
  | _ => none

instance : Wire Message := ⟨write, read⟩

end Message

end TokenBridge
