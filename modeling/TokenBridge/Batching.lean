import TokenBridge.Directory
import TokenBridge.Pool
/-!
Batches of pooled transfers. A batch leaves the store when it is executed on Ethereum, when a later batch
of its token is, or when it has timed out; in the last two cases its transfers go back to the pool.
-/
namespace TokenBridge.Batching

def chosen (s : Store) (token : Address) (limit : Nat) : List UInt64 :=
  ((s.feeQueue.filter fun place _ => place.1 = token).keys.take limit).map fun place => place.2.2

def assemble (token : Address) (limit : Nat) (block timeout : UInt64) : Action Batch := do
  let s ← get
  let ids := chosen s token limit
  Action.require (!ids.isEmpty) (.emptyBatch token)
  let transfers ← ids.mapM fun id => Action.someOr .absent (s.pool.get? id)
  modify (Pool.removeAll transfers)
  let nonce ← Action.inRange (Counter.next? ((← get).lastBatch.getD token 0))
  let batch : Batch := { nonce, timeout, transfers, token, block }
  modify fun s =>
    { s with
      lastBatch := s.lastBatch.insert token nonce
      batches := s.batches.insert (token, nonce) batch }
  return batch

def request (block : Block) (token : String) (limit : Option UInt32) : Action Response := do
  let config ← Action.config
  Action.require (!config.paused) .paused
  let token ← Action.address token
  let limit := min (limit.getD config.maxBatchSize).toNat config.maxBatchSize.toNat
  Action.require (limit != 0) (.badAmount .noElements)
  let ethHeight := (← get).ethHeight
  Action.require (ethHeight != 0) .noEthHeight
  let batch ← assemble token limit block.height
    (Counter.cappedAdd ethHeight config.batchTimeoutBlocks)
  return .of "request_batch"
    [("token_contract", toString token), ("batch_nonce", toString batch.nonce),
      ("batch_timeout", toString batch.timeout),
      ("transaction_ids", ",".intercalate (batch.transfers.map fun t => toString t.id))]

def confirm (caller : Caller) (nonce : UInt64) (token signer : String) (signature : Blob) :
    Action Response := do
  let orchestrator := caller.sender
  let validator ← Directory.validatorOf orchestrator
  let token ← Action.address token
  let signer ← Action.address signer
  let s ← get
  Action.require (s.batches.contains (token, nonce)) (.batchNotFound token nonce)
  let expected ← Directory.signerOf validator
  Action.require (expected = signer) (.signerMismatch expected signer)
  Action.require (!s.batchConfirmations.contains (token, nonce, orchestrator))
    (.duplicateConfirmation orchestrator)
  set { s with
    batchConfirmations := s.batchConfirmations.insert (token, nonce, orchestrator)
      { nonce, token, orchestrator, signer, signature } }
  return .of "confirm_batch"
    [("orchestrator", toString orchestrator), ("token_contract", toString token),
      ("batch_nonce", toString nonce)]

def discard (token : Address) (nonce : UInt64) (s : Store) : Store :=
  { s with
    batchConfirmations := s.batchConfirmations.filter fun k _ => !(k.1 = token && k.2.1 = nonce)
    batches := s.batches.erase (token, nonce) }

def dissolve (token : Address) (nonce : UInt64) : Action Unit := do
  let batch ← Action.someOr .absent ((← get).batches.get? (token, nonce))
  modify fun s => discard token nonce (Pool.addAll batch.transfers s)

def expired (s : Store) : List Batch :=
  s.batches.values.filter fun b => Counter.below b.timeout s.ethHeight

def dissolveExpired : Action (List Batch) := do
  let batches := expired (← get)
  batches.forM fun b => dissolve b.token b.nonce
  return batches

def olderThan (s : Store) (token : Address) (nonce : UInt64) : List UInt64 :=
  (s.batches.filter fun k _ => k.1 = token && Counter.below k.2 nonce).keys.map Prod.snd

/-- What becomes of the escrow of an executed batch: assets of this chain stay locked here, cw20 tokens of
Ethereum are burned. -/
def settle (p : Pairing) (total : Amount) : Action Effect := do
  if p.ofThisChain then
    let s ← get
    let key := p.asset.key
    let locked ← Action.inRange ((s.locked.getD key .zero).add? total)
    set { s with locked := s.locked.insert key locked }
    return .applied []
  else
    match p.asset with
    | .cw20 contract =>
      return .applied (if total.isZero then [] else [.call contract (.burn total)])
    | .native _ => return .applied []

/-- A batch was executed on Ethereum, and none of its token before it can be any more. -/
def executed (token : Address) (nonce : UInt64) : Action Effect := do
  let s ← get
  match s.batches.get? (token, nonce) with
  | none => return .failed (.noBatch token nonce)
  | some batch =>
    (olderThan s token nonce).forM fun older => dissolve token older
    modify (discard token nonce)
    let total ← Action.inRange batch.total?
    match (← get).pairings.get? token with
    | none => return .failed (.unpaired token)
    | some p => settle p total

end TokenBridge.Batching
