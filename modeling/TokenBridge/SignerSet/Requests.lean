import TokenBridge.Directory
/-!
Signer sets that the bridge asks Ethereum to install, their confirmations, and the set that Ethereum
reports as installed.
-/
namespace TokenBridge.SignerSet

def rewardOf (s : Store) (config : Config) : Amount × Address :=
  match config.reward with
  | none => (.zero, .zero)
  | some reward =>
    match s.tokenOf.get? reward.asset.key with
    | none => (.zero, .zero)
    | some token => (reward.amount, token)

def current (view : StakeView) (height : UInt64) (s : Store) : Except Halt SignerSet :=
  match s.config with
  | none => .error (.refused .absent)
  | some config =>
    match Counter.next? s.latestSet with
    | none => .error .overflow
    | some nonce =>
      let reward := rewardOf s config
      .ok (canonical ⟨nonce, height, view.signers s, reward.1, reward.2⟩)

def latest (s : Store) : Option SignerSet :=
  if s.latestSet = 0 then none else s.signerSets.get? s.latestSet

def keep (set : SignerSet) (s : Store) : Store :=
  { s with signerSets := s.signerSets.insert set.nonce set, latestSet := set.nonce }

def storeNext (view : StakeView) (height : UInt64) : Action SignerSet := do
  let set ← Action.ofExcept (current view height (← get))
  Action.require (!set.members.isEmpty) .emptySet
  modify (keep set)
  return set

def drifted (config : Config) (last : Option SignerSet) (now : SignerSet) : Option Bool :=
  match last with
  | none => some true
  | some last => do
    let drift ← last.drift? now
    return !drift.below config.driftThreshold

def storeDrifted (view : StakeView) (height : UInt64) : Action (Option SignerSet) := do
  let config ← Action.config
  let s ← get
  let now ← Action.ofExcept (current view height s)
  if now.members.isEmpty then
    return none
  else
    let needed ← Action.inRange (drifted config (latest s) now)
    if needed then
      set (keep now s)
      return some now
    else
      return none

def request (block : Block) (caller : Caller) : Action Response := do
  let config ← Action.config
  Action.require (caller.sender = config.admin || (← get).isStatic caller.sender) .notAdmin
  let set ← storeNext .stored block.height
  return .of "request_valset"
    [("valset_nonce", toString set.nonce), ("members", toString set.members.length)]

def confirm (caller : Caller) (nonce : UInt64) (signer : String) (signature : Blob) :
    Action Response := do
  let orchestrator := caller.sender
  let validator ← Directory.validatorOf orchestrator
  let signer ← Action.address signer
  let s ← get
  Action.require (s.signerSets.contains nonce) (.setNotFound nonce)
  let expected ← Directory.signerOf validator
  Action.require (expected = signer) (.signerMismatch expected signer)
  Action.require (!s.setConfirmations.contains (nonce, orchestrator))
    (.duplicateConfirmation orchestrator)
  set { s with
    setConfirmations := s.setConfirmations.insert (nonce, orchestrator)
      { nonce, orchestrator, signer, signature } }
  return .of "valset_confirm"
    [("orchestrator", toString orchestrator), ("valset_nonce", toString nonce)]

def installed (block : Block) (nonce : UInt64) (members : List Signer) (rewardAmount : Amount)
    (rewardToken : Address) : Action Effect := do
  modify fun s =>
    { s with
      observedSet := some (canonical ⟨nonce, block.height, members, rewardAmount, rewardToken⟩) }
  return .applied []

end TokenBridge.SignerSet
