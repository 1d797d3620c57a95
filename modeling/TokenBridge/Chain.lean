import TokenBridge.Contract
/-!
The bridge on its chain. Orders are carried out one after another; one that halts is answered with its
halt and leaves the store as it was.
-/
namespace TokenBridge

inductive Order where
  | setUp (message : Setup)
  | execute (caller : Caller) (message : Message)
  | migrate
  deriving DecidableEq

structure Chain where
  store : Store
  block : Block
  deriving DecidableEq

namespace Chain

def action (block : Block) : Order → Action Response
  | .setUp message => Contract.setUp message
  | .execute caller message => Contract.execute block caller message
  | .migrate => Contract.migrate

def deliver (c : Chain) (order : Order) : Except Halt Response × Chain :=
  let (outcome, store) := (action c.block order).commit c.store
  (outcome, { c with store })

end Chain

end TokenBridge
