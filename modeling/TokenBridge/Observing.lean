import TokenBridge.Batching
import TokenBridge.Registry
import TokenBridge.SignerSet.Requests
import TokenBridge.Voting
/-!
Observation of claims, strictly in the order of their nonces. Once an attestation at the nonce after the
last observed one has two thirds of the power it is marked observed and its claim takes effect,
once; a claim whose effect fails is observed all the same.
-/
namespace TokenBridge.Observing

/-- The longest byte string that may stand in front of another part of a key. -/
def longestScope : Nat := 65535

def callExecuted (scope : Blob) (nonce ethHeight : UInt64) : Action Effect := do
  Action.inRange (if scope.bytes.length ≤ longestScope then some () else none)
  modify fun s =>
    { s with executedCalls := s.executedCalls.insert (scope.bytes, nonce) ethHeight }
  return .applied []

def takeEffect (block : Block) (claim : Claim) : Action Effect :=
  match claim.event with
  | .deposit token amount _ receiver => Registry.deposited claim.nonce token amount receiver
  | .batchExecuted batchNonce token => Batching.executed token batchNonce
  | .callExecuted scope scopeNonce => callExecuted scope scopeNonce claim.ethHeight
  | .tokenDeployed denom token _ _ _ => Registry.deployed denom token
  | .signersUpdated setNonce members rewardAmount rewardToken =>
    SignerSet.installed block setNonce members rewardAmount rewardToken

def winner (view : StakeView) (s : Store) (nonce total : UInt64) : Option (Word × Attestation) :=
  ((s.attestations.filter fun k _ => k.1 = nonce).entries.find? fun e =>
    !e.2.observed && Nat.ble Power.threshold (view.share s e.2.votes total).toNat).map
      fun e => (e.1.2, e.2)

def mark (nonce : UInt64) (fingerprint : Word) (a : Attestation) (s : Store) : Store :=
  { s with
    attestations := s.attestations.insert (nonce, fingerprint) { a with observed := true }
    observedNonce := nonce
    ethHeight := Counter.larger s.ethHeight a.claim.ethHeight }

def observeNext (view : StakeView) (block : Block) : Action (Option Observation) := do
  let s ← get
  let total := view.total s
  if total = 0 then
    return none
  else
    let nonce ← Action.inRange (Counter.next? s.observedNonce)
    match winner view s nonce total with
    | none => return none
    | some (fingerprint, a) =>
      let after := mark nonce fingerprint a s
      set after
      let effect ← takeEffect block a.claim
      return some
        { nonce, fingerprint, claim := a.claim, votes := a.votes.length,
          ethHeight := after.ethHeight, effect }

def observeUpTo (view : StakeView) (block : Block) : Nat → Action (List Observation)
  | 0 => return []
  | fuel + 1 => do
    match ← observeNext view block with
    | none => return []
    | some o => return o :: (← observeUpTo view block fuel)

def unobserved (s : Store) : Nat := s.attestations.values.countP fun a => !a.observed

/-- Observes nonce after nonce until one is undecided. Every observation takes one attestation out of the
unobserved, so one step more than their number always reaches the end. -/
def observe (view : StakeView) (block : Block) : Action (List Observation) := do
  observeUpTo view block (unobserved (← get) + 1)

def submit (block : Block) (caller : Caller) (claim : Claim) : Action Response := do
  Action.refuseIf (claim.fault?.map .badClaim)
  let validator ← Directory.validatorOf caller.sender
  let config ← Action.config
  let a ← Voting.cast config.conflictPolicy validator claim block.height
  let observations ← observe .stored block
  return (Response.of "submit_claim"
    [("orchestrator", toString caller.sender), ("validator", toString validator),
      ("claim_type", claim.event.kind), ("event_nonce", toString claim.nonce),
      ("fingerprint", toString claim.fingerprint), ("votes", toString a.votes.length),
      ("observed_count", toString observations.length)]).observing observations

/-- Observes what changes of power, not votes, have decided. -/
def process (block : Block) : Action Response := do
  let observations ← observe .stored block
  return (Response.of "process_attestations"
    [("observed_count", toString observations.length)]).observing observations

end TokenBridge.Observing
