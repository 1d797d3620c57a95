import TokenBridge.Account
import TokenBridge.Encoding
import TokenBridge.SignerSet.Basic
/-!
Claims: an event of the Ethereum side as one orchestrator reports it. Who reports it is no part of the
claim, so equal reports have equal fingerprints.
-/
namespace TokenBridge

inductive Event where
  | deposit (token : Address) (amount : Amount) (sender : Address) (receiver : String)
  | batchExecuted (batchNonce : UInt64) (token : Address)
  | callExecuted (scope : Blob) (scopeNonce : UInt64)
  | tokenDeployed (denom : String) (token : Address) (name symbol : String) (decimals : UInt8)
  | signersUpdated (setNonce : UInt64) (members : List Signer) (rewardAmount : Amount)
      (rewardToken : Address)
  deriving DecidableEq

structure Claim where
  nonce : UInt64
  ethHeight : UInt64
  event : Event
  deriving DecidableEq

inductive ClaimFault where
  | zeroNonce
  | zeroDeposit
  | emptyDenom
  | noMembers
  deriving DecidableEq, Repr

def ClaimFault.message : ClaimFault → String
  | zeroNonce => "event nonce must be positive"
  | zeroDeposit => "deposit amount must be positive"
  | emptyDenom => "empty cosmos denom"
  | noMembers => "valset without members"

def Event.kind : Event → String
  | deposit .. => "send_to_cosmos"
  | batchExecuted .. => "batch_send_to_eth_executed"
  | callExecuted .. => "contract_call_executed"
  | tokenDeployed .. => "erc20_deployed"
  | signersUpdated .. => "valset_updated"

namespace Claim

open Encoding (Field)

def fault? (c : Claim) : Option ClaimFault :=
  if c.nonce = 0 then some .zeroNonce
  else match c.event with
    | .deposit _ amount _ _ => if amount.isZero then some .zeroDeposit else none
    | .tokenDeployed denom .. => if denom.isEmpty then some .emptyDenom else none
    | .signersUpdated _ members _ _ => if members.isEmpty then some .noMembers else none
    | _ => none

def tag (c : Claim) : String :=
  match c.event with
  | .deposit .. => "SendToCosmos"
  | .batchExecuted .. => "BatchSendToEthExecuted"
  | .callExecuted .. => "ContractCallExecuted"
  | .tokenDeployed .. => "Erc20Deployed"
  | .signersUpdated .. => "ValsetUpdated"

def memberFields (m : Signer) : List Field := [.address m.address, .number m.power.toNat]

def eventFields : Event → List Field
  | .deposit token amount sender receiver =>
    [.address token, .number amount.val, .address sender, .text receiver]
  | .batchExecuted batchNonce token => [.number batchNonce.toNat, .address token]
  | .callExecuted scope scopeNonce => [.octets scope.bytes, .number scopeNonce.toNat]
  | .tokenDeployed denom token name symbol decimals =>
    [.text denom, .address token, .text name, .text symbol, .number decimals.toNat]
  | .signersUpdated setNonce members rewardAmount rewardToken =>
    [.number setNonce.toNat, .number members.length] ++ members.flatMap memberFields
      ++ [.number rewardAmount.val, .address rewardToken]

def fields (c : Claim) : List Field :=
  .number c.nonce.toNat :: .number c.ethHeight.toNat :: eventFields c.event

def preimage (c : Claim) : Bytes := Encoding.record c.tag c.fields

def fingerprint (c : Claim) : Word := Keccak.hash c.preimage

def eventJson : Event → Json.Fields
  | .deposit token amount sender receiver =>
    [("token_contract", toJson token), ("amount", toJson amount),
      ("ethereum_sender", toJson sender), ("cosmos_receiver", toJson receiver)]
  | .batchExecuted batchNonce token =>
    [("batch_nonce", toJson batchNonce), ("token_contract", toJson token)]
  | .callExecuted scope scopeNonce =>
    [("invalidation_id", toJson scope), ("invalidation_nonce", toJson scopeNonce)]
  | .tokenDeployed denom token name symbol decimals =>
    [("cosmos_denom", toJson denom), ("token_contract", toJson token), ("name", toJson name),
      ("symbol", toJson symbol), ("decimals", toJson decimals)]
  | .signersUpdated setNonce members rewardAmount rewardToken =>
    [("valset_nonce", toJson setNonce), ("members", toJson members),
      ("reward_amount", toJson rewardAmount), ("reward_token", toJson rewardToken)]

def eventReader : String → Option (List String × (Json.Fields → Option Event))
  | "send_to_cosmos" => some
    (["token_contract", "amount", "ethereum_sender", "cosmos_receiver"], fun fields => do
      return .deposit (← fields.read "token_contract") (← fields.read "amount")
        (← fields.read "ethereum_sender") (← fields.read "cosmos_receiver"))
  | "batch_send_to_eth_executed" => some
    (["batch_nonce", "token_contract"], fun fields => do
      return .batchExecuted (← fields.read "batch_nonce") (← fields.read "token_contract"))
  | "contract_call_executed" => some
    (["invalidation_id", "invalidation_nonce"], fun fields => do
      return .callExecuted (← fields.read "invalidation_id") (← fields.read "invalidation_nonce"))
  | "erc20_deployed" => some
    (["cosmos_denom", "token_contract", "name", "symbol", "decimals"], fun fields => do
      return .tokenDeployed (← fields.read "cosmos_denom") (← fields.read "token_contract")
        (← fields.read "name") (← fields.read "symbol") (← fields.read "decimals"))
  | "valset_updated" => some
    (["valset_nonce", "members", "reward_amount", "reward_token"], fun fields => do
      return .signersUpdated (← fields.read "valset_nonce") (← fields.read "members")
        (← fields.read "reward_amount") (← fields.read "reward_token"))
  | _ => none

instance : Wire Claim where
  toJson c := .choice c.event.kind
    (("event_nonce", toJson c.nonce) :: ("block_height", toJson c.ethHeight) :: eventJson c.event)
  ofJson? json := do
    let (kind, content) ← json.choice?
    let (names, reader) ← eventReader kind
    let fields ← content.fields? ("event_nonce" :: "block_height" :: names)
    return {
      nonce := ← fields.read "event_nonce"
      ethHeight := ← fields.read "block_height"
      event := ← reader fields }

end Claim

end TokenBridge
