import TokenBridge.Address
import TokenBridge.Asset
/-!
Withdrawals to Ethereum. A transfer holds the amount and the fee in escrow until its batch is executed
there or its sender takes it back; a batch carries transfers of one token contract.
-/
namespace TokenBridge

structure Transfer where
  id : UInt64
  sender : Account
  destination : Address
  token : Address
  amount : Amount
  fee : Amount
  asset : Asset
  deriving DecidableEq

namespace Transfer

def total? (t : Transfer) : Option Amount := t.amount.add? t.fee

instance : Wire Transfer where
  toJson t := .record
    [("id", toJson t.id), ("sender", toJson t.sender), ("dest_address", toJson t.destination),
      ("token_contract", toJson t.token), ("amount", toJson t.amount), ("fee", toJson t.fee),
      ("asset", toJson t.asset)]
  ofJson? json := do
    let fields ← json.fields?
      ["id", "sender", "dest_address", "token_contract", "amount", "fee", "asset"]
    return {
      id := ← fields.read "id"
      sender := ← fields.read "sender"
      destination := ← fields.read "dest_address"
      token := ← fields.read "token_contract"
      amount := ← fields.read "amount"
      fee := ← fields.read "fee"
      asset := ← fields.read "asset" }

end Transfer

structure Batch where
  nonce : UInt64
  timeout : UInt64
  transfers : List Transfer
  token : Address
  block : UInt64
  deriving DecidableEq

namespace Batch

def total? (b : Batch) : Option Amount := do
  Amount.sum? (← b.transfers.mapM Transfer.total?)

instance : Wire Batch where
  toJson b := .record
    [("batch_nonce", toJson b.nonce), ("batch_timeout", toJson b.timeout),
      ("transactions", toJson b.transfers), ("token_contract", toJson b.token),
      ("block", toJson b.block)]
  ofJson? json := do
    let fields ← json.fields?
      ["batch_nonce", "batch_timeout", "transactions", "token_contract", "block"]
    return {
      nonce := ← fields.read "batch_nonce"
      timeout := ← fields.read "batch_timeout"
      transfers := ← fields.read "transactions"
      token := ← fields.read "token_contract"
      block := ← fields.read "block" }

end Batch

end TokenBridge
