import TokenBridge.Directory
/-!
The message that sets a bridge up, and the one that changes its version, in their JSON form.
-/
namespace TokenBridge

structure Setup where
  admin : String
  bridgeId : String
  staticValidators : List String
  stakes : List StakeReport
  driftThreshold : Option Decimal
  minimumTransfer : Option Amount
  minimumFee : Option Amount
  maxBatchSize : Option UInt32
  batchTimeoutBlocks : Option UInt64
  conflictPolicy : Option ConflictPolicy
  reward : Option AssetAmount
  deriving DecidableEq

instance : Wire Setup where
  toJson m := .record
    [("admin", toJson m.admin), ("gravity_id", toJson m.bridgeId),
      ("static_validators", toJson m.staticValidators), ("validator_powers", toJson m.stakes),
      ("valset_drift_threshold", toJson m.driftThreshold),
      ("minimum_transfer", toJson m.minimumTransfer), ("minimum_fee", toJson m.minimumFee),
      ("max_batch_size", toJson m.maxBatchSize),
      ("batch_timeout_blocks", toJson m.batchTimeoutBlocks),
      ("conflict_policy", toJson m.conflictPolicy), ("valset_reward", toJson m.reward)]
  ofJson? json := do
    let fields ← json.fields?
      ["admin", "gravity_id", "static_validators", "validator_powers", "valset_drift_threshold",
        "minimum_transfer", "minimum_fee", "max_batch_size", "batch_timeout_blocks",
        "conflict_policy", "valset_reward"]
    return {
      admin := ← fields.read "admin"
      bridgeId := ← fields.read "gravity_id"
      staticValidators := ← fields.read "static_validators"
      stakes := ← fields.read "validator_powers"
      driftThreshold := ← fields.readOptional "valset_drift_threshold"
      minimumTransfer := ← fields.readOptional "minimum_transfer"
      minimumFee := ← fields.readOptional "minimum_fee"
      maxBatchSize := ← fields.readOptional "max_batch_size"
      batchTimeoutBlocks := ← fields.readOptional "batch_timeout_blocks"
      conflictPolicy := ← fields.readOptional "conflict_policy"
      reward := ← fields.readOptional "valset_reward" }

structure Migration where
  deriving DecidableEq, Repr

instance : Wire Migration where
  toJson _ := .record []
  ofJson? json := do
    let _ ← json.fields? []
    return {}

end TokenBridge
