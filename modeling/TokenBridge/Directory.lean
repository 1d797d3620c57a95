import TokenBridge.Action
import TokenBridge.Response
import TokenBridge.Stake
/-!
The directory of validators: who may bind keys, which orchestrator and which Ethereum signer a validator
has bound, and what stake it has. Keys are bound once and for good.
-/
namespace TokenBridge

structure StakeReport where
  validator : String
  power : UInt64
  deriving DecidableEq, Repr

instance : Wire StakeReport where
  toJson r := .record [("validator", toJson r.validator), ("power", toJson r.power)]
  ofJson? json := do
    let fields ← json.fields? ["validator", "power"]
    return { validator := ← fields.read "validator", power := ← fields.read "power" }

namespace Directory

def bind (validator orchestrator : Account) (signer : Address) : Action Unit := do
  let s ← get
  Action.require (!s.signerOf.contains validator) (.signerAlreadySet validator)
  Action.require (!s.validatorOf.contains orchestrator) (.orchestratorBound orchestrator)
  Action.require (!s.validatorOfSigner.contains signer) (.signerInUse signer)
  set { s with
    signerOf := s.signerOf.insert validator signer
    validatorOfSigner := s.validatorOfSigner.insert signer validator
    validatorOf := s.validatorOf.insert orchestrator validator
    orchestratorOf := s.orchestratorOf.insert validator orchestrator }

def validatorOf (orchestrator : Account) : Action Account := do
  Action.someOr (.unknownOrchestrator orchestrator) ((← get).validatorOf.get? orchestrator)

def signerOf (validator : Account) : Action Address := do
  Action.someOr (.signerNotSet validator) ((← get).signerOf.get? validator)

def setOrchestrator (caller : Caller) (orchestrator signer : String) : Action Response := do
  let validator := caller.sender
  let orchestrator ← Action.account orchestrator
  let signer ← Action.address signer
  let s ← get
  Action.require (s.isStatic validator) (.notStatic validator)
  Action.require (StakeView.stored.stakeOf s validator != 0) (.notBonded validator)
  bind validator orchestrator signer
  return .of "set_orchestrator_address"
    [("validator", toString validator), ("orchestrator", toString orchestrator),
      ("eth_address", toString signer)]

def enrol (validator : Account) : Action Unit :=
  modify fun s => { s with staticValidators := s.staticValidators.insert validator () }

def enrolAll (names : List String) : Action Unit :=
  names.forM fun name => do enrol (← Action.account name)

def addStaticValidator (caller : Caller) (name : String) : Action Response := do
  let _ ← Action.configFor caller
  let validator ← Action.account name
  enrol validator
  return .of "add_static_validator" [("validator", toString validator)]

/-- Each report is taken in before the next is looked at. -/
def report (reports : List StakeReport) : Action Unit :=
  reports.forM fun r => do
    let validator ← Action.account r.validator
    modify fun s => s.setPower validator r.power

def updatePowers (caller : Caller) (reports : List StakeReport) : Action Response := do
  let _ ← Action.configFor caller
  report reports
  return .of "update_validator_powers"
    [("updated", toString reports.length), ("total_power", toString (← get).totalPower)]

end Directory

end TokenBridge
