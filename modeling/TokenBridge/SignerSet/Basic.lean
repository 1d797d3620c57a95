import TokenBridge.Address
import TokenBridge.Counter
import TokenBridge.Decimal
import TokenBridge.Power
import TokenBridge.Sorting
import TokenBridge.SortedMap.Basic
/-!
Signer sets: the Ethereum addresses that sign for the bridge, each with its power on the common scale,
and the reward for bringing the set to Ethereum. Signers are ranked by power, the highest first,
and by address where powers are equal.
-/
namespace TokenBridge

structure Signer where
  power : UInt64
  address : Address
  deriving DecidableEq

namespace Signer

def precedes (a b : Signer) : Bool :=
  Counter.below b.power a.power || (a.power == b.power && Key.before a.address b.address)

def ranked (signers : List Signer) : List Signer := Sorting.sort precedes signers

instance : Wire Signer where
  toJson s := .record [("power", toJson s.power), ("ethereum_address", toJson s.address)]
  ofJson? json := do
    let fields ← json.fields? ["power", "ethereum_address"]
    return { power := ← fields.read "power", address := ← fields.read "ethereum_address" }

end Signer

structure SignerSet where
  nonce : UInt64
  height : UInt64
  members : List Signer
  rewardAmount : Amount
  rewardToken : Address
  deriving DecidableEq

namespace SignerSet

def canonical (s : SignerSet) : SignerSet := { s with members := Signer.ranked s.members }

/-- Power by address; of repeated addresses the last counts. -/
def powers (s : SignerSet) : SortedMap Address UInt64 :=
  s.members.foldl (fun table m => table.insert m.address m.power) ∅

/-- The absolute changes from a table of powers to a list of members, where each member takes its
address out of the table, and what is left at the end goes to zero. -/
def movement (before : SortedMap Address UInt64) : List Signer → Nat
  | [] => (before.values.map UInt64.toNat).sum
  | m :: rest =>
    Counter.distance (before.getD m.address 0) m.power + movement (before.erase m.address) rest

def drift? (s t : SignerSet) : Option Decimal :=
  Decimal.ofRatio? (movement s.powers t.members) Power.maximum

instance : Wire SignerSet where
  toJson s := .record
    [("nonce", toJson s.nonce), ("height", toJson s.height), ("members", toJson s.members),
      ("reward_amount", toJson s.rewardAmount), ("reward_token", toJson s.rewardToken)]
  ofJson? json := do
    let fields ← json.fields? ["nonce", "height", "members", "reward_amount", "reward_token"]
    return {
      nonce := ← fields.read "nonce"
      height := ← fields.read "height"
      members := ← fields.read "members"
      rewardAmount := ← fields.read "reward_amount"
      rewardToken := ← fields.read "reward_token" }

end SignerSet

end TokenBridge
