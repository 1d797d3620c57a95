import TokenBridge.Store
/-!
Where stake comes from. Everything that counts votes or ranks signers asks a `StakeView`; the bridge
itself uses `StakeView.stored`, the table that its admin feeds.
-/
namespace TokenBridge

structure StakeView where
  total : Store → UInt64
  stakeOf : Store → Account → UInt64
  staked : Store → List (Account × UInt64)

namespace StakeView

def stored : StakeView where
  total := Store.totalPower
  stakeOf s account := s.powers.getD account 0
  staked s := s.powers.entries.filter fun e => e.2 != 0

def share (view : StakeView) (s : Store) (voters : List Account) (total : UInt64) : UInt64 :=
  let stake := voters.foldl (fun sum voter => Counter.cappedAdd sum (view.stakeOf s voter)) 0
  Power.scaled (Counter.smaller stake total) total

def boundStakes (view : StakeView) (s : Store) : List (Address × UInt64) :=
  (view.staked s).filterMap fun (validator, stake) =>
    if stake = 0 then none else (s.signerOf.get? validator).map fun signer => (signer, stake)

def signers (view : StakeView) (s : Store) : List Signer :=
  let bound := view.boundStakes s
  let total := bound.foldl (fun sum e => Counter.cappedAdd sum e.2) 0
  Signer.ranked (bound.map fun e => ⟨Power.scaled e.2 total, e.1⟩)

end StakeView

def Store.setPower (s : Store) (validator : Account) (power : UInt64) : Store :=
  let before := s.powers.getD validator 0
  { s with
    powers := if power = 0 then s.powers.erase validator else s.powers.insert validator power
    totalPower := Counter.cappedAdd (Counter.cappedSub s.totalPower before) power }

end TokenBridge
