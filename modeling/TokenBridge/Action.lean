import TokenBridge.Refusal
import TokenBridge.Store
/-!
Actions on the store. An action that halts leaves the store as it was when it halted; whoever runs it
decides what becomes of that (`Action.commit` drops it).
-/
namespace TokenBridge

/-- A refusal, or a number or key past its width. -/
inductive Halt where
  | refused (why : Refusal)
  | overflow
  deriving DecidableEq

abbrev Action := ExceptT Halt (StateM Store)

/-- The block that a message is carried out in; the time is in nanoseconds. -/
structure Block where
  height : UInt64
  time : UInt64
  deriving DecidableEq, Repr

structure Caller where
  sender : Account
  funds : List (String × Amount)
  deriving DecidableEq

namespace Action

variable {α : Type}

def refuse (why : Refusal) : Action α := throw (.refused why)

def require (condition : Bool) (why : Refusal) : Action Unit :=
  if condition then pure () else refuse why

def refuseIf : Option Refusal → Action Unit
  | some why => refuse why
  | none => pure ()

def someOr (why : Refusal) : Option α → Action α
  | some a => pure a
  | none => refuse why

def inRange : Option α → Action α
  | some a => pure a
  | none => throw .overflow

def ofExcept : Except Halt α → Action α
  | .ok a => pure a
  | .error halt => throw halt

def account (name : String) : Action Account :=
  match Account.validate name with
  | .ok account => pure account
  | .error fault => refuse (.badAccount fault)

def address (written : String) : Action Address :=
  match Address.parse written with
  | .ok address => pure address
  | .error fault => refuse (.badAddress fault)

def config : Action Config := do someOr .absent (← get).config

def configFor (caller : Caller) : Action Config := do
  let config ← config
  require (caller.sender = config.admin) .notAdmin
  return config

def setConfig (config : Config) : Action Unit := modify fun s => { s with config := some config }

def commit (action : Action α) (s : Store) : Except Halt α × Store :=
  match action.run s with
  | (.ok a, after) => (.ok a, after)
  | (.error halt, _) => (.error halt, s)

end Action

end TokenBridge
