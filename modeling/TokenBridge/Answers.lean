import TokenBridge.Action
import TokenBridge.Checkpoint
import TokenBridge.Message.Query
import TokenBridge.Observing
/-!
Answers to queries. A query reads the store and changes nothing. Lists of past requests run from the
newest to the oldest, and no list of them is longer than fifty.
-/
namespace TokenBridge.Answers

abbrev Answer := Except Halt

def refuse {α : Type} (why : Refusal) : Answer α := .error (.refused why)

def someOr {α : Type} (why : Refusal) : Option α → Answer α
  | some a => .ok a
  | none => refuse why

def account (name : String) : Answer Account :=
  (Account.validate name).mapError fun fault => .refused (.badAccount fault)

def address (written : String) : Answer Address :=
  (Address.parse written).mapError fun fault => .refused (.relayed (.badAddress fault))

def pageCap : Nat := 50

def page (limit : Option UInt32) : Nat := min (limit.getD 5).toNat pageCap

structure Keys where
  validator : Account
  orchestrator : Account
  signer : Address
  deriving DecidableEq

def keys (s : Store) (validator : Account) : Answer Keys := do
  let signer ← someOr (.notFound .signer) (s.signerOf.get? validator)
  let orchestrator ← someOr (.notFound .orchestrator) (s.orchestratorOf.get? validator)
  return { validator, orchestrator, signer }

def keysByValidator (s : Store) (validator : String) : Answer Keys := do
  keys s (← account validator)

def keysByOrchestrator (s : Store) (orchestrator : String) : Answer Keys := do
  let orchestrator ← account orchestrator
  keys s (← someOr (.notFound .validator) (s.validatorOf.get? orchestrator))

def keysBySigner (s : Store) (signer : String) : Answer Keys := do
  let signer ← address signer
  keys s (← someOr (.notFound .validator) (s.validatorOfSigner.get? signer))

def attestation (s : Store) (nonce : UInt64) (fingerprint : Blob) : Option Attestation := do
  s.attestations.get? (nonce, ← Word.ofBytes? fingerprint.bytes)

def attestationsAt (s : Store) (nonce : UInt64) : List (Word × Attestation) :=
  (s.attestations.filter fun k _ => k.1 = nonce).entries.map fun e => (e.1.2, e.2)

def lastVoted (s : Store) (orchestrator : String) : Answer UInt64 := do
  let orchestrator ← account orchestrator
  let validator ← someOr (.notFound .validator) (s.validatorOf.get? orchestrator)
  return Voting.lastNonce s validator

def callExecution (s : Store) (scope : Blob) (nonce : UInt64) : Answer (Option UInt64) :=
  if Observing.longestScope < scope.bytes.length then .error .overflow
  else .ok (s.executedCalls.get? (scope.bytes, nonce))

def relay {α : Type} : Answer α → Answer α
  | .ok a => .ok a
  | .error (.refused why) => refuse (.relayed why)
  | .error .overflow => .error .overflow

def currentSet (s : Store) (block : Block) : Answer SignerSet :=
  relay (SignerSet.current .stored block.height s)

def newestSets (s : Store) : List SignerSet := s.signerSets.values.reverse

def lastSets (s : Store) (limit : Option UInt32) : List SignerSet :=
  (newestSets s).take (page limit)

def unconfirmedSets (s : Store) (orchestrator : String) : Answer (List SignerSet) := do
  let orchestrator ← account orchestrator
  let pending := s.signerSets.entries.reverse.filter fun e =>
    !s.setConfirmations.contains (e.1, orchestrator)
  return (pending.take pageCap).map Prod.snd

def setConfirmation (s : Store) (nonce : UInt64) (orchestrator : String) :
    Answer (Option SetConfirmation) := do
  return s.setConfirmations.get? (nonce, ← account orchestrator)

def setConfirmations (s : Store) (nonce : UInt64) : List SetConfirmation :=
  (s.setConfirmations.filter fun k _ => k.1 = nonce).values

def bridgeWord (s : Store) : Answer Word := do
  let config ← someOr .absent s.config
  (Checkpoint.bridgeWord config.bridgeId).mapError fun bytes =>
    .refused (.relayed (.badConfig (.bridgeId bytes)))

def setCheckpoint (s : Store) (nonce : UInt64) : Answer Word := do
  let bridge ← bridgeWord s
  return Checkpoint.ofSignerSet bridge (← someOr .absent (s.signerSets.get? nonce))

def batch (s : Store) (token : String) (nonce : UInt64) : Answer (Option Batch) := do
  return s.batches.get? (← address token, nonce)

def newer (a b : Batch) : Bool :=
  Counter.below b.block a.block || (a.block == b.block && Counter.below b.nonce a.nonce)

def newestBatches (s : Store) : List Batch := Sorting.sort newer s.batches.values

def lastBatches (s : Store) (limit : Option UInt32) : List Batch :=
  (newestBatches s).take (page limit)

def unconfirmedBatches (s : Store) (orchestrator : String) : Answer (List Batch) := do
  let orchestrator ← account orchestrator
  let pending := (newestBatches s).filter fun b =>
    !s.batchConfirmations.contains (b.token, b.nonce, orchestrator)
  return pending.take pageCap

def batchConfirmations (s : Store) (token : String) (nonce : UInt64) :
    Answer (List BatchConfirmation) := do
  let token ← address token
  return (s.batchConfirmations.filter fun k _ => k.1 = token && k.2.1 = nonce).values

def batchCheckpoint (s : Store) (token : String) (nonce : UInt64) : Answer Word := do
  let bridge ← bridgeWord s
  let token ← address token
  return Checkpoint.ofBatch bridge (← someOr .absent (s.batches.get? (token, nonce)))

structure PendingTransfers where
  batched : List Transfer
  pooled : List Transfer
  deriving DecidableEq

def transfersOf (s : Store) (sender : String) : Answer PendingTransfers := do
  let sender ← account sender
  let mine := List.filter fun t : Transfer => t.sender = sender
  return { batched := mine s.batched, pooled := mine s.pool.values }

structure FeeTotal where
  token : Address
  fees : Amount
  transfers : UInt64
  deriving DecidableEq

def countFee (table : SortedMap Address FeeTotal) (t : Transfer) :
    Answer (SortedMap Address FeeTotal) :=
  let before := table.getD t.token ⟨t.token, .zero, 0⟩
  match before.fees.add? t.fee with
  | none => .error .overflow
  | some fees =>
    .ok (table.insert t.token { before with fees, transfers := before.transfers + 1 })

def batchFees (s : Store) : Answer (List FeeTotal) := do
  return (← s.pool.values.foldlM countFee ∅).values

def pairingOfToken (s : Store) (token : String) : Answer (Option Pairing) := do
  return s.pairings.get? (← address token)

def pairingOfAsset (s : Store) (key : String) : Option Pairing := do
  s.pairings.get? (← s.tokenOf.get? key)

def parkedDeposits (s : Store) (token : String) : Answer (List ParkedDeposit) := do
  return Registry.parkedFor s (← address token)

end TokenBridge.Answers
