import TokenBridge.Housekeeping
import TokenBridge.Admin
import TokenBridge.Checkpoint
import TokenBridge.Json.Parser
import TokenBridge.Message.Execute
import TokenBridge.Message.Setup
/-!
The bridge as a contract: setting it up, carrying messages out, and a change of version. Setting it up
again starts the counters anew and keeps everything else.
-/
namespace TokenBridge.Contract

def version : String := "1.0.0"

def configOf (admin : Account) (m : Setup) : Config where
  admin := admin
  paused := false
  bridgeId := m.bridgeId
  driftThreshold := m.driftThreshold.getD (.percent 5)
  minimumTransfer := m.minimumTransfer.getD .zero
  minimumFee := m.minimumFee.getD .zero
  maxBatchSize := m.maxBatchSize.getD 100
  batchTimeoutBlocks := m.batchTimeoutBlocks.getD 3600
  conflictPolicy := m.conflictPolicy.getD .reject
  reward := m.reward

def setUp (m : Setup) : Action Response := do
  let admin ← Action.account m.admin
  let _ ← Action.ofExcept ((Checkpoint.bridgeWord m.bridgeId).mapError fun bytes =>
    .refused (.badConfig (.bridgeId bytes)))
  let config := configOf admin m
  Admin.checkDrift config.driftThreshold
  Admin.checkBatchSize config.maxBatchSize
  Action.setConfig config
  Directory.enrolAll m.staticValidators
  Directory.report m.stakes
  modify fun s => { s with observedNonce := 0, ethHeight := 0, latestSet := 0, lastTransfer := 0 }
  return .of "instantiate"
    [("admin", toString admin), ("gravity_id", m.bridgeId),
      ("static_validators", toString m.staticValidators.length),
      ("valset_drift_threshold", toString config.driftThreshold)]

def handover? (payload : Blob) : Option Pool.Handover := do
  ofJson? (← Json.parse? (← Text.ofUtf8? payload.bytes))

def execute (block : Block) (caller : Caller) : Message → Action Response
  | .setOrchestrator orchestrator signer => Directory.setOrchestrator caller orchestrator signer
  | .addStaticValidator name => Directory.addStaticValidator caller name
  | .updatePowers reports => Directory.updatePowers caller reports
  | .submitClaim claim => Observing.submit block caller claim
  | .processAttestations => Observing.process block
  | .requestSet => SignerSet.request block caller
  | .confirmSet nonce signer signature => SignerSet.confirm caller nonce signer signature
  | .endBlock => Housekeeping.endBlock block
  | .sendToEth destination fee => Pool.sendToEth caller destination fee
  | .receive sender amount payload => Pool.receive caller sender amount (handover? payload)
  | .cancelTransfer id => Pool.cancel caller id
  | .requestBatch token limit => Batching.request block token limit
  | .confirmBatch nonce token signer signature =>
    Batching.confirm caller nonce token signer signature
  | .registerToken token cw20 => Registry.registerToken caller token cw20
  | .updateConfig change => Admin.updateConfig caller change
  | .setMinimumFee fee => Admin.setMinimumFee caller fee
  | .pause => Admin.pause caller
  | .unpause => Admin.unpause caller
  | .proposeAdmin name => Admin.propose block caller name
  | .acceptAdmin => Admin.accept block caller
  | .cancelProposal => Admin.cancelProposal caller

def migrate : Action Response := return .of "migrate" [("version", version)]

end TokenBridge.Contract
