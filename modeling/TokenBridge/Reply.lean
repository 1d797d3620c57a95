import TokenBridge.Answers
/-!
The JSON form of the answers to queries.
-/
namespace TokenBridge.Reply

def config (c : Config) : Json := .record
  [("admin", toJson c.admin), ("paused", toJson c.paused), ("gravity_id", toJson c.bridgeId),
    ("valset_drift_threshold", toJson c.driftThreshold),
    ("minimum_transfer", toJson c.minimumTransfer), ("minimum_fee", toJson c.minimumFee),
    ("max_batch_size", toJson c.maxBatchSize),
    ("batch_timeout_blocks", toJson c.batchTimeoutBlocks),
    ("conflict_policy", toJson c.conflictPolicy), ("valset_reward", toJson c.reward)]

def pendingAdmin (p : PendingAdmin) : Json := .record
  [("new_address", toJson p.account), ("execute_after", .text (toString p.executeAfter))]

def keys (k : Answers.Keys) : Json := .record
  [("validator", toJson k.validator), ("orchestrator", toJson k.orchestrator),
    ("eth_address", toJson k.signer)]

def hash (w : Word) : Json := toJson (Blob.mk w.bytes)

def attestation (a : Attestation) : Json := .record
  [("claim", toJson a.claim), ("votes", toJson a.votes), ("observed", toJson a.observed),
    ("height", toJson a.height)]

def attestationAt (e : Word × Attestation) : Json := .record
  [("fingerprint", hash e.1), ("attestation", attestation e.2)]

def setConfirmation (c : SetConfirmation) : Json := .record
  [("nonce", toJson c.nonce), ("orchestrator", toJson c.orchestrator),
    ("eth_signer", toJson c.signer), ("signature", toJson c.signature)]

def batchConfirmation (c : BatchConfirmation) : Json := .record
  [("nonce", toJson c.nonce), ("token_contract", toJson c.token),
    ("orchestrator", toJson c.orchestrator), ("eth_signer", toJson c.signer),
    ("signature", toJson c.signature)]

def transfers (t : Answers.PendingTransfers) : Json := .record
  [("transfers_in_batches", toJson t.batched), ("unbatched_transfers", toJson t.pooled)]

def feeTotal (f : Answers.FeeTotal) : Json := .record
  [("token_contract", toJson f.token), ("total_fees", toJson f.fees),
    ("tx_count", toJson f.transfers)]

def pairing (p : Pairing) : Json := .record
  [("erc20", toJson p.token), ("asset", toJson p.asset.key),
    ("cosmos_originated", toJson p.ofThisChain)]

def parkedDeposit (d : ParkedDeposit) : Json := .record
  [("event_nonce", toJson d.nonce), ("receiver", toJson d.receiver),
    ("amount", toJson d.amount)]

def list {α : Type} (item : α → Json) (items : List α) : Json := .list (items.map item)

def optional {α : Type} (item : α → Json) : Option α → Json
  | none => .null
  | some a => item a

def answer (s : Store) (block : Block) : Query → Answers.Answer Json
  | .config => do return config (← Answers.someOr .absent s.config)
  | .pendingAdmin => .ok (optional pendingAdmin s.pendingAdmin)
  | .keysByValidator validator => do return keys (← Answers.keysByValidator s validator)
  | .keysByOrchestrator orchestrator => do
    return keys (← Answers.keysByOrchestrator s orchestrator)
  | .keysBySigner signer => do return keys (← Answers.keysBySigner s signer)
  | .staticValidators => .ok (.record [("validators", toJson s.staticValidators.keys)])
  | .isStaticValidator name => do return toJson (s.isStatic (← Answers.account name))
  | .validatorPowers => .ok (.record
      [("total_power", toJson s.totalPower), ("powers", toJson (StakeView.stored.staked s))])
  | .attestation nonce fingerprint =>
    .ok (optional attestation (Answers.attestation s nonce fingerprint))
  | .attestationsByNonce nonce =>
    .ok (.record [("attestations", list attestationAt (Answers.attestationsAt s nonce))])
  | .claimFingerprint claim => .ok (hash claim.fingerprint)
  | .lastObserved => .ok (.record
      [("event_nonce", toJson s.observedNonce), ("ethereum_height", toJson s.ethHeight)])
  | .lastVoted orchestrator => do return toJson (← Answers.lastVoted s orchestrator)
  | .callExecution scope nonce => do return toJson (← Answers.callExecution s scope nonce)
  | .currentSet => do return toJson (← Answers.currentSet s block)
  | .setRequest nonce => .ok (toJson (s.signerSets.get? nonce))
  | .lastSetRequests limit => .ok (toJson (Answers.lastSets s limit))
  | .unconfirmedSets orchestrator => do return toJson (← Answers.unconfirmedSets s orchestrator)
  | .setConfirmation nonce orchestrator => do
    return optional setConfirmation (← Answers.setConfirmation s nonce orchestrator)
  | .setConfirmations nonce => .ok (list setConfirmation (Answers.setConfirmations s nonce))
  | .setCheckpoint nonce => do return hash (← Answers.setCheckpoint s nonce)
  | .lastObservedSet => .ok (toJson s.observedSet)
  | .batch token nonce => do return toJson (← Answers.batch s token nonce)
  | .lastBatches limit => .ok (toJson (Answers.lastBatches s limit))
  | .unconfirmedBatches orchestrator => do
    return toJson (← Answers.unconfirmedBatches s orchestrator)
  | .batchConfirmations token nonce => do
    return list batchConfirmation (← Answers.batchConfirmations s token nonce)
  | .batchCheckpoint token nonce => do return hash (← Answers.batchCheckpoint s token nonce)
  | .transfersOf sender => do return transfers (← Answers.transfersOf s sender)
  | .batchFees => do return list feeTotal (← Answers.batchFees s)
  | .pairingOfToken token => do return optional pairing (← Answers.pairingOfToken s token)
  | .pairingOfAsset key => .ok (optional pairing (Answers.pairingOfAsset s key))
  | .lockedBalance key => .ok (toJson (s.locked.getD key .zero))
  | .parkedDeposits token => do
    return list parkedDeposit (← Answers.parkedDeposits s token)

end TokenBridge.Reply
