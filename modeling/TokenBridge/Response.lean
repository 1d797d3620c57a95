import TokenBridge.Ledger
import TokenBridge.Refusal
/-!
What a message answers: attributes for its readers, messages for the ledger, and one observation for
every claim that it brought into effect.
-/
namespace TokenBridge

inductive EffectFault where
  | receiver (name : String)
  | lockedBelow (locked : Amount) (key : String) (deposit : Amount)
  | notMintable (denom : String)
  | noBatch (token : Address) (nonce : UInt64)
  | unpaired (token : Address)
  | pairing (fault : PairingFault)
  deriving DecidableEq

def EffectFault.message : EffectFault → String
  | receiver name => s!"invalid cosmos receiver {name}"
  | lockedBelow locked key deposit => s!"locked balance {locked} of {key} below deposit {deposit}"
  | notMintable denom => s!"native denom {denom} cannot be minted"
  | noBatch token nonce => s!"batch {token} nonce {nonce} not found"
  | unpaired token => s!"token contract {token} not registered"
  | pairing fault => fault.message

inductive Effect where
  | applied (messages : List LedgerMessage)
  | deferred (token : Address)
  | failed (fault : EffectFault)
  deriving DecidableEq

namespace Effect

def messages : Effect → List LedgerMessage
  | applied messages => messages
  | _ => []

def attributes : Effect → List (String × String)
  | applied _ => []
  | deferred token => [("claim_deferred", s!"token contract {token} not registered")]
  | failed fault => [("claim_error", fault.message)]

end Effect

structure Observation where
  nonce : UInt64
  fingerprint : Word
  claim : Claim
  votes : Nat
  ethHeight : UInt64
  effect : Effect
  deriving DecidableEq

namespace Observation

def attributes (o : Observation) : List (String × String) :=
  [("claim_type", o.claim.event.kind), ("event_nonce", toString o.nonce),
    ("fingerprint", toString o.fingerprint), ("votes", toString o.votes),
    ("eth_height", toString o.ethHeight)] ++ o.effect.attributes

def toJson (o : Observation) : Json :=
  .record [("type", .text "gravity_observation"), ("attributes", Wire.toJson o.attributes)]

end Observation

structure Response where
  attributes : List (String × String)
  messages : List LedgerMessage
  observations : List Observation
  deriving DecidableEq

namespace Response

def of (method : String) (attributes : List (String × String)) : Response :=
  ⟨("method", method) :: attributes, [], []⟩

def paying (r : Response) (messages : List LedgerMessage) : Response :=
  { r with messages := r.messages ++ messages }

def observing (r : Response) (observations : List Observation) : Response :=
  { r with
    messages := r.messages ++ observations.flatMap fun o => o.effect.messages
    observations := r.observations ++ observations }

def toJson (r : Response) : Json :=
  .record
    [("attributes", Wire.toJson r.attributes),
      ("messages", .list (r.messages.map LedgerMessage.toJson)),
      ("events", .list (r.observations.map Observation.toJson))]

end Response

end TokenBridge
