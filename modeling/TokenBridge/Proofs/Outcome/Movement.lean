import TokenBridge.Proofs.Outcome.Frame
/-!
The kinds of orders, by what they may change. Every order that is carried out is one of seven movements: it
administers, reports stakes, takes a transfer in, gives one back, builds a batch, registers a token, or casts a
vote at most and observes.
-/
namespace TokenBridge

open TokenBridge.Action

namespace Order

def brings : Order → List (Asset × Amount)
  | .execute caller (.sendToEth ..) => caller.funds.map fun coin => (.native coin.1, coin.2)
  | .execute caller (.receive _ amount _) => [(.cw20 caller.sender, amount)]
  | _ => []

def setsUp : Order → Bool
  | .setUp _ => true
  | _ => false

def entersFor? : Order → Option Account
  | .execute caller (.sendToEth ..) => some caller.sender
  | .execute _ (.receive sender ..) => some ⟨sender⟩
  | _ => none

def cancels? : Order → Option UInt64
  | .execute _ (.cancelTransfer id) => some id
  | _ => none

def reports : Order → List StakeReport
  | .setUp m => m.stakes
  | .execute _ (.updatePowers reports) => reports
  | _ => []

structure Still (order : Order) : Prop where
  brings : order.brings = []
  entersFor : order.entersFor? = none
  cancels : order.cancels? = none

end Order

def Voted (block : Block) (s u : Store) : Prop :=
  u = s ∨ ∃ policy validator claim a,
    claim.fault? = none ∧ Yields (Voting.cast policy validator claim block.height) s a u

inductive Movement (block : Block) (s : Store) (order : Order) (r : Response) (t : Store) : Prop where
  | administered (still : order.Still) (unreporting : order.reports = []) (moved : OfficeMoved s t)
      (silent : r.messages = []) (unobserving : r.observations = [])
  | reported (still : order.Still)
      (after : t = order.reports.foldl (fun s r => s.setPower ⟨r.validator⟩ r.power) s)
      (silent : r.messages = []) (unobserving : r.observations = [])
  | entered {x : Transfer} {sender : Account} {asset : Asset} {sent fee : Amount} {method : String}
      (brings : order.brings = [(asset, sent)]) (entersFor : order.entersFor? = some sender)
      (uncalled : order.cancels? = none) (unreporting : order.reports = [])
      (entered : Pool.Entered s sender asset sent fee x) (answer : r = Pool.receipt method x)
      (after : t = Pool.add x { s with lastTransfer := x.id })
  | cancelled {caller : Caller} {x : Transfer} {total : Amount} {id : UInt64}
      (order : order = .execute caller (.cancelTransfer id)) (here : s.pool.get? id = some x)
      (own : x.sender = caller.sender) (sum : x.total? = some total)
      (paid : r.messages = [x.asset.payout x.sender total]) (unobserving : r.observations = [])
      (after : t = Pool.remove x s)
  | assembled {token : Address} {limit : Nat} {height timeout : UInt64} {b : Batch}
      (still : order.Still) (unreporting : order.reports = [])
      (made : Yields (Batching.assemble token limit height timeout) s b t)
      (silent : r.messages = []) (unobserving : r.observations = [])
  | registered {caller : Caller} {written cw20 : String} {token : Address} {a : Account}
      (order : order = .execute caller (.registerToken written cw20))
      (valid : Account.validate cw20 = .ok a)
      (free : Registry.pairingFault? s token (.cw20 a) = none)
      (after : t = Registry.unparkAll token (Registry.parkedFor s token)
        (Registry.pair ⟨token, .cw20 a, false⟩ s))
      (minted : r.messages = (Registry.parkedFor s token).map (Registry.mint a))
      (unobserving : r.observations = [])
  | observed {u v w : Store} {os : List Observation} {dissolved : List Batch} (still : order.Still)
      (unreporting : order.reports = []) (voted : Voted block s u)
      (pass : Observing.Pass .stored block u os v)
      (returned : Yields (forM dissolved fun b => Batching.dissolve b.token b.nonce) v ⟨⟩ w)
      (moved : OfficeMoved w t) (answers : Observing.Answers r os)
      (ended : dissolved = [] ∨ dissolved = Batching.expired v)

variable {s t : Store} {block : Block} {caller : Caller} {r : Response} {order : Order}

theorem Contract.executeMovement {m : Message} (h : Yields (Contract.execute block caller m) s r t) :
    Movement block s (.execute caller m) r t := by
  cases office : m.office with
  | true =>
    obtain ⟨moved, silent, unobserving⟩ := Contract.officeMoves office h
    cases m with
    | sendToEth | receive | cancelTransfer | updatePowers => cases office
    | _ =>
      have moved : OfficeMoved s t := moved.elim RecordsMoved.office Enrolled.office
      exact .administered ⟨rfl, rfl, rfl⟩ rfl moved silent unobserving
  | false =>
    cases m with
    | updatePowers reports =>
      obtain ⟨_, _, _, after, rfl⟩ := Directory.updatePowersYields h
      exact .reported ⟨rfl, rfl, rfl⟩ after rfl rfl
    | submitClaim claim =>
      obtain ⟨_, _, _, _, _, sound, _, _, voted, pass, answers⟩ := Observing.submitYields h
      exact .observed ⟨rfl, rfl, rfl⟩ rfl (.inr ⟨_, _, claim, _, sound, voted⟩) pass
        (yieldsForMNil.2 rfl) RecordsMoved.here.office answers (.inl rfl)
    | processAttestations =>
      obtain ⟨_, pass, answers⟩ := Observing.processYields h
      exact .observed ⟨rfl, rfl, rfl⟩ rfl (.inl rfl) pass (yieldsForMNil.2 rfl)
        RecordsMoved.here.office answers (.inl rfl)
    | endBlock =>
      obtain ⟨_, _, _, _, pass, returned, stored, answers⟩ := Housekeeping.endBlockYields h
      exact .observed ⟨rfl, rfl, rfl⟩ rfl (.inl rfl) pass returned
        (SignerSet.storeDriftedMoves stored).office answers (.inr rfl)
    | sendToEth destination fee =>
      obtain ⟨denom, sent, x, funds, entered, rfl, rfl⟩ := Pool.sendToEthYields h
      refine .entered ?_ rfl rfl rfl entered rfl rfl
      simp [Order.brings, funds]
    | receive sender amount payload =>
      obtain ⟨a, x, valid, ⟨fee, entered⟩, rfl, rfl⟩ := Pool.receiveYields h
      have named : a = ⟨sender⟩ := Account.validateName valid
      exact .entered rfl (by rw [named]; rfl) rfl rfl entered rfl rfl
    | cancelTransfer id =>
      obtain ⟨x, total, here, own, sum, rfl, rfl⟩ := Pool.cancelYields h
      exact .cancelled rfl here own sum rfl rfl rfl
    | requestBatch token limit =>
      obtain ⟨_, _, _, _, _, _, made, silent, unobserving⟩ := Batching.requestYields h
      exact .assembled ⟨rfl, rfl, rfl⟩ rfl made silent unobserving
    | registerToken token cw20 =>
      obtain ⟨_, k, a, _, _, _, valid, free, rfl, rfl⟩ := Registry.registerTokenYields h
      exact .registered rfl valid free rfl rfl rfl
    | setOrchestrator | addStaticValidator | requestSet | confirmSet | confirmBatch | updateConfig
    | setMinimumFee | pause | unpause | proposeAdmin | acceptAdmin | cancelProposal => cases office

theorem Chain.laterMovement (later : order.setsUp = false)
    (h : Yields (Chain.action block order) s r t) : Movement block s order r t := by
  cases order with
  | setUp => cases later
  | execute => exact Contract.executeMovement h
  | migrate =>
    obtain ⟨rfl, rfl⟩ := yieldsPure.1 h
    exact .administered ⟨rfl, rfl, rfl⟩ rfl RecordsMoved.here.office rfl rfl

end TokenBridge
