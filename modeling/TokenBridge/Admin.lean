import TokenBridge.Action
import TokenBridge.Response
/-!
The configuration and who may change it. The admin hands its office on in two steps, a proposal and an
acceptance at least seven days later; the minimum fee is in the hands of the static validators.
-/
namespace TokenBridge

structure ConfigChange where
  driftThreshold : Option Decimal
  minimumTransfer : Option Amount
  maxBatchSize : Option UInt32
  batchTimeoutBlocks : Option UInt64
  conflictPolicy : Option ConflictPolicy
  reward : Option AssetAmount
  deriving DecidableEq

namespace Admin

def checkDrift (threshold : Decimal) : Action Unit :=
  Action.require (threshold.atomics != 0 && !Decimal.one.below threshold)
    (.badConfig (.drift threshold))

def checkBatchSize (size : UInt32) : Action Unit :=
  Action.require (size != 0) (.badConfig .batchSize)

def changed (config : Config) (change : ConfigChange) : Config :=
  { config with
    driftThreshold := change.driftThreshold.getD config.driftThreshold
    minimumTransfer := change.minimumTransfer.getD config.minimumTransfer
    maxBatchSize := change.maxBatchSize.getD config.maxBatchSize
    batchTimeoutBlocks := change.batchTimeoutBlocks.getD config.batchTimeoutBlocks
    conflictPolicy := change.conflictPolicy.getD config.conflictPolicy
    reward := change.reward.or config.reward }

def updateConfig (caller : Caller) (change : ConfigChange) : Action Response := do
  let config ← Action.configFor caller
  change.driftThreshold.forM checkDrift
  change.maxBatchSize.forM checkBatchSize
  let config := changed config change
  Action.setConfig config
  return .of "update_config"
    [("valset_drift_threshold", toString config.driftThreshold),
      ("minimum_transfer", toString config.minimumTransfer),
      ("max_batch_size", toString config.maxBatchSize),
      ("batch_timeout_blocks", toString config.batchTimeoutBlocks)]

def setMinimumFee (caller : Caller) (fee : Amount) : Action Response := do
  Action.require ((← get).isStatic caller.sender) (.notStatic caller.sender)
  let config ← Action.config
  Action.require (config.minimumFee ≠ fee) (.badAmount (.sameFee fee))
  Action.setConfig { config with minimumFee := fee }
  return .of "set_minimum_fee"
    [("previous", toString config.minimumFee), ("minimum_fee", toString fee)]

def pause (caller : Caller) : Action Response := do
  let config ← Action.configFor caller
  Action.setConfig { config with paused := true }
  return .of "pause" []

def unpause (caller : Caller) : Action Response := do
  let config ← Action.configFor caller
  Action.setConfig { config with paused := false }
  return .of "unpause" []

def seconds (time : UInt64) : UInt64 := time / 1000000000

/-- Seven days, in nanoseconds. -/
def timelock : UInt64 := 604800000000000

def propose (block : Block) (caller : Caller) (name : String) : Action Response := do
  let _ ← Action.configFor caller
  let account ← Action.account name
  let executeAfter ← Action.inRange (Counter.add? block.time timelock)
  modify fun s => { s with pendingAdmin := some { account, executeAfter } }
  return .of "propose_admin"
    [("new_admin", toString account), ("execute_after", toString (seconds executeAfter))]

def accept (block : Block) (caller : Caller) : Action Response := do
  let pending ← Action.someOr .noPendingAdmin (← get).pendingAdmin
  Action.require (caller.sender = pending.account) .notPendingAdmin
  Action.require (!Counter.below block.time pending.executeAfter)
    (.timelocked (seconds pending.executeAfter - seconds block.time))
  let config ← Action.config
  modify fun s =>
    { s with config := some { config with admin := pending.account }, pendingAdmin := none }
  return .of "accept_admin" [("new_admin", toString pending.account)]

def cancelProposal (caller : Caller) : Action Response := do
  let _ ← Action.configFor caller
  modify fun s => { s with pendingAdmin := none }
  return .of "cancel_admin_proposal" []

end Admin

end TokenBridge
