import TokenBridge.Action
import TokenBridge.Response
/-!
The pool of transfers that wait for a batch. The pool lists them by number and the fee queue by token and
fee; a transfer enters and leaves both together.
-/
namespace TokenBridge.Pool

def place (t : Transfer) : FeePlace := (t.token, t.fee.headroom, t.id)

def add (t : Transfer) (s : Store) : Store :=
  { s with pool := s.pool.insert t.id t, feeQueue := s.feeQueue.insert (place t) () }

def remove (t : Transfer) (s : Store) : Store :=
  { s with pool := s.pool.erase t.id, feeQueue := s.feeQueue.erase (place t) }

def addAll (transfers : List Transfer) (s : Store) : Store :=
  transfers.foldl (fun s t => add t s) s

def removeAll (transfers : List Transfer) (s : Store) : Store :=
  transfers.foldl (fun s t => remove t s) s

def amountAfterFee (config : Config) (sent fee : Amount) : Except Refusal Amount :=
  match sent.sub? fee with
  | none => .error (.badAmount (.feeExceeds fee sent))
  | some amount =>
    if amount.isZero then .error (.badAmount .nothingLeft)
    else if amount.below config.minimumTransfer then
      .error (.belowMinimum amount config.minimumTransfer)
    else if fee.below config.minimumFee then .error (.belowMinimumFee fee config.minimumFee)
    else .ok amount

def enqueue (sender : Account) (asset : Asset) (sent : Amount) (destination : String)
    (fee : Amount) : Action Transfer := do
  let config ← Action.config
  Action.require (!config.paused) .paused
  let destination ← Action.address destination
  let token ← Action.someOr (.unsupported asset.key) ((← get).tokenOf.get? asset.key)
  let amount ← Action.ofExcept ((amountAfterFee config sent fee).mapError .refused)
  let id ← Action.inRange (Counter.next? (← get).lastTransfer)
  let t : Transfer := { id, sender, destination, token, amount, fee, asset }
  modify fun s => add t { s with lastTransfer := id }
  return t

def receipt (method : String) (t : Transfer) : Response :=
  .of method
    [("transaction_id", toString t.id), ("sender", toString t.sender),
      ("dest_address", toString t.destination), ("token_contract", toString t.token),
      ("amount", toString t.amount), ("fee", toString t.fee)]

def sendToEth (caller : Caller) (destination : String) (fee : Amount) : Action Response := do
  match caller.funds with
  | [(denom, sent)] =>
    return receipt "send_to_eth" (← enqueue caller.sender (.native denom) sent destination fee)
  | _ => Action.refuse (.badAmount .notOneCoin)

structure Handover where
  destination : String
  fee : Amount
  deriving DecidableEq, Repr

instance : Wire Handover where
  toJson h := .choice "send_to_eth"
    [("eth_dest", toJson h.destination), ("bridge_fee", toJson h.fee)]
  ofJson? json := do
    match ← json.choice? with
    | ("send_to_eth", content) =>
      let fields ← content.fields? ["eth_dest", "bridge_fee"]
      return { destination := ← fields.read "eth_dest", fee := ← fields.read "bridge_fee" }
    | _ => none

def receive (caller : Caller) (sender : String) (sent : Amount) (handover : Option Handover) :
    Action Response := do
  let sender ← Action.account sender
  let h ← Action.someOr .malformed handover
  return receipt "send_to_eth_cw20"
    (← enqueue sender (.cw20 caller.sender) sent h.destination h.fee)

def cancel (caller : Caller) (id : UInt64) : Action Response := do
  let s ← get
  match s.pool.get? id with
  | none =>
    if s.batched.any (fun t => t.id == id) then Action.refuse (.transferBatched id)
    else Action.refuse (.transferNotFound id)
  | some t =>
    Action.require (t.sender = caller.sender) (.notSender id)
    set (remove t s)
    let total ← Action.inRange t.total?
    return (Response.of "cancel_send_to_eth"
      [("transaction_id", toString id), ("refund", toString total),
        ("asset", t.asset.key)]).paying [t.asset.payout t.sender total]

end TokenBridge.Pool
