import TokenBridge.Action
import TokenBridge.Response
/-!
The registry of tokens, and deposits from Ethereum. An ERC20 and an asset are paired once and for good.
A deposit pays out the counterpart of its token: locked coins are released, cw20 tokens minted, and a
deposit of an unpaired ERC20 is parked until the pairing.
-/
namespace TokenBridge.Registry

def pairingFault? (s : Store) (token : Address) (asset : Asset) : Option PairingFault :=
  if s.pairings.contains token then some (.tokenTaken token)
  else if s.tokenOf.contains asset.key then some (.assetTaken asset.key)
  else none

def pair (p : Pairing) (s : Store) : Store :=
  { s with
    pairings := s.pairings.insert p.token p
    tokenOf := s.tokenOf.insert p.asset.key p.token }

def parkedFor (s : Store) (token : Address) : List ParkedDeposit :=
  (s.parked.filter fun k _ => k.1 = token).values

def unpark (token : Address) (d : ParkedDeposit) (s : Store) : Store :=
  { s with parked := s.parked.erase (token, d.nonce) }

def unparkAll (token : Address) (deposits : List ParkedDeposit) (s : Store) : Store :=
  deposits.foldl (fun s d => unpark token d s) s

def mint (cw20 : Account) (d : ParkedDeposit) : LedgerMessage :=
  .call cw20 (.mint d.receiver d.amount)

def registerToken (caller : Caller) (token cw20 : String) : Action Response := do
  let _ ← Action.configFor caller
  let token ← Action.address token
  let cw20 ← Action.account cw20
  let s ← get
  Action.refuseIf ((pairingFault? s token (.cw20 cw20)).map fun fault =>
    .badConfig (.pairing fault))
  let parked := parkedFor s token
  set (unparkAll token parked (pair ⟨token, .cw20 cw20, false⟩ s))
  return (Response.of "register_ethereum_token"
    [("token_contract", toString token), ("cw20", toString cw20),
      ("replayed_deposits", toString parked.length)]).paying (parked.map (mint cw20))

def deployed (denom : String) (token : Address) : Action Effect := do
  match pairingFault? (← get) token (.native denom) with
  | some fault => return .failed (.pairing fault)
  | none =>
    modify (pair ⟨token, .native denom, true⟩)
    return .applied []

def payOut (p : Pairing) (receiver : Account) (amount : Amount) : Action Effect := do
  if p.ofThisChain then
    let s ← get
    let key := p.asset.key
    let locked := s.locked.getD key .zero
    match locked.sub? amount with
    | none => return .failed (.lockedBelow locked key amount)
    | some rest =>
      set { s with locked := s.locked.insert key rest }
      return .applied [p.asset.payout receiver amount]
  else
    match p.asset with
    | .cw20 contract => return .applied [.call contract (.mint receiver amount)]
    | .native denom => return .failed (.notMintable denom)

def deposited (nonce : UInt64) (token : Address) (amount : Amount) (receiver : String) :
    Action Effect := do
  match Account.validate receiver with
  | .error _ => return .failed (.receiver receiver)
  | .ok receiver =>
    match (← get).pairings.get? token with
    | some p => payOut p receiver amount
    | none =>
      modify fun s =>
        { s with parked := s.parked.insert (token, nonce) ⟨nonce, receiver, amount⟩ }
      return .deferred token

end TokenBridge.Registry
