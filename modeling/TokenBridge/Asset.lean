import TokenBridge.Account
import TokenBridge.Amount
/-!
Tokens of this chain, native denominations and cw20 contracts, and the messages that move them.
-/
namespace TokenBridge

inductive Asset where
  | native (denom : String)
  | cw20 (contract : Account)
  deriving DecidableEq, Repr

namespace Asset

def key : Asset → String
  | native denom => denom
  | cw20 contract => contract.name

instance : Wire Asset where
  toJson
    | native denom => .choice "native" [("denom", toJson denom)]
    | cw20 contract => .choice "cw20" [("contract_addr", toJson contract)]
  ofJson? json := do
    match ← json.choice? with
    | ("native", content) => return native (← (← content.fields? ["denom"]).read "denom")
    | ("cw20", content) =>
      return cw20 (← (← content.fields? ["contract_addr"]).read "contract_addr")
    | _ => none

end Asset

structure AssetAmount where
  asset : Asset
  amount : Amount
  deriving DecidableEq, Repr

instance : Wire AssetAmount where
  toJson a := .record [("info", toJson a.asset), ("amount", toJson a.amount)]
  ofJson? json := do
    let fields ← json.fields? ["info", "amount"]
    return { asset := ← fields.read "info", amount := ← fields.read "amount" }

inductive TokenCall where
  | mint (recipient : Account) (amount : Amount)
  | burn (amount : Amount)
  | transfer (recipient : Account) (amount : Amount)
  deriving DecidableEq, Repr

def TokenCall.toJson : TokenCall → Json
  | mint recipient amount =>
    .choice "mint" [("recipient", Wire.toJson recipient), ("amount", Wire.toJson amount)]
  | burn amount => .choice "burn" [("amount", Wire.toJson amount)]
  | transfer recipient amount =>
    .choice "transfer" [("recipient", Wire.toJson recipient), ("amount", Wire.toJson amount)]

inductive LedgerMessage where
  | send (recipient : Account) (denom : String) (amount : Amount)
  | call (contract : Account) (request : TokenCall)
  deriving DecidableEq, Repr

def Asset.payout (asset : Asset) (recipient : Account) (amount : Amount) : LedgerMessage :=
  match asset with
  | native denom => .send recipient denom amount
  | cw20 contract => .call contract (.transfer recipient amount)

end TokenBridge
