import TokenBridge.Proofs.Escrow.Exchange
import TokenBridge.Proofs.Outcome.Movement
/-!
What observed claims do to escrow. The effect of a claim pays out what was locked, pairs a denomination, or lets
out the batch that it finds executed; any other leaves escrow and the books of tokens alone.
-/
namespace TokenBridge

open TokenBridge.Action

variable {s t u : Store} {block : Block} {e : Effect}

structure EscrowKept (s t : Store) : Prop where
  pool : t.pool = s.pool
  feeQueue : t.feeQueue = s.feeQueue
  batches : t.batches = s.batches
  lastBatch : t.lastBatch = s.lastBatch
  lastTransfer : t.lastTransfer = s.lastTransfer
  tokenOf : t.tokenOf = s.tokenOf
  pairings : t.pairings = s.pairings
  locked : t.locked = s.locked

theorem EscrowKept.here : EscrowKept s s := ⟨rfl, rfl, rfl, rfl, rfl, rfl, rfl, rfl⟩

theorem OfficeMoved.escrow (h : OfficeMoved s t) : EscrowKept s t := by
  obtain ⟨_, _, _, _, _, _, _, _, _, _, _, rfl⟩ := h
  exact ⟨rfl, rfl, rfl, rfl, rfl, rfl, rfl, rfl⟩

theorem StakesMoved.escrow (h : StakesMoved s t) : EscrowKept s t := by
  obtain ⟨_, _, rfl⟩ := h
  exact ⟨rfl, rfl, rfl, rfl, rfl, rfl, rfl, rfl⟩

theorem Voted.escrow (h : Voted block s t) : EscrowKept s t := by
  rcases h with rfl | ⟨_, _, _, _, _, cast⟩
  · exact .here
  · obtain ⟨_, rfl⟩ := Voting.castYields cast
    exact ⟨rfl, rfl, rfl, rfl, rfl, rfl, rfl, rfl⟩

theorem Observing.markEscrow {nonce : UInt64} {fingerprint : Word} {a : Attestation} :
    EscrowKept s (mark nonce fingerprint a s) := ⟨rfl, rfl, rfl, rfl, rfl, rfl, rfl, rfl⟩

theorem EscrowKept.held (h : EscrowKept s t) : t.held = s.held := by
  unfold Store.held Store.batched
  rw [h.pool, h.batches]

theorem Holding.keep (h : Holding s) (pool : t.pool = s.pool) (feeQueue : t.feeQueue = s.feeQueue)
    (batches : t.batches = s.batches) (lastBatch : t.lastBatch = s.lastBatch)
    (lastTransfer : t.lastTransfer = s.lastTransfer)
    (tokens : ∀ k token, s.tokenOf.get? k = some token → t.tokenOf.get? k = some token) :
    Exchanged [] [] s t := by
  have held : t.held = s.held := by
    unfold Store.held Store.batched
    rw [pool, batches]
  refine ⟨⟨⟨?_, ?_⟩, ⟨?_, ?_, ?_⟩, ?_, ?_, ?_⟩, ?_⟩
  · rw [pool]
    exact h.indexed.keyed
  · rw [pool, feeQueue]
    exact h.indexed.queued
  · rw [batches]
    exact h.filed.keyed
  · rw [batches, lastBatch]
    exact h.filed.numbered
  · rw [batches]
    exact h.filed.oneToken
  · rw [held]
    exact h.distinct
  · rw [held, lastTransfer]
    exact h.numbered
  · intro x inside
    rw [held] at inside
    exact tokens _ _ (h.registered x inside)
  · rw [held]

theorem EscrowKept.exchanged (h : EscrowKept s t) (holding : Holding s) : Exchanged [] [] s t :=
  holding.keep h.pool h.feeQueue h.batches h.lastBatch h.lastTransfer
    fun _ _ found => by rw [h.tokenOf]; exact found

namespace Registry

theorem pairTokens {p : Pairing} (free : pairingFault? s p.token p.asset = none) (k : String)
    (token : Address) (found : s.tokenOf.get? k = some token) :
    (pair p s).tokenOf.get? k = some token := by
  rw [pair, SortedMap.getInsertOther]
  · exact found
  · intro same
    rw [← same, (pairingFree free).2] at found
    cases found

end Registry

def executedBy? (s : Store) (event : Event) (e : Effect) : Option Batch :=
  match event with
  | .batchExecuted nonce token =>
    if e = .failed (.noBatch token nonce) then none else s.batches.get? (token, nonce)
  | _ => none

inductive Settled (token : Address) (total : Amount) (s : Store) : Effect → Store → Prop where
  | unpaired (missing : s.pairings.get? token = none) :
      Settled token total s (.failed (.unpaired token)) s
  | locked {p : Pairing} {sum : Amount} (paired : s.pairings.get? token = some p)
      (ours : p.ofThisChain = true)
      (inRange : (s.locked.getD p.asset.key .zero).add? total = some sum) :
      Settled token total s (.applied []) { s with locked := s.locked.insert p.asset.key sum }
  | burned {p : Pairing} (paired : s.pairings.get? token = some p)
      (foreign : p.ofThisChain = false) :
      Settled token total s (.applied (match p.asset with
        | .cw20 contract => if total.isZero then [] else [.call contract (.burn total)]
        | .native _ => [])) s

inductive Effected (s : Store) : Event → Effect → Store → Prop where
  | idle {event : Event} {e : Effect} {t : Store} (kept : EscrowKept s t)
      (unexecuted : ∀ v, executedBy? v event e = none)
      (minting : ∀ m ∈ e.messages, ∃ k a n, m = .call k (.mint a n)) : Effected s event e t
  | released {token : Address} {amount : Amount} {sender : Address} {receiver : String} {p : Pairing}
      {a : Account} {rest : Amount} (paired : s.pairings.get? token = some p)
      (ours : p.ofThisChain = true)
      (left : (s.locked.getD p.asset.key .zero).sub? amount = some rest) :
      Effected s (.deposit token amount sender receiver) (.applied [p.asset.payout a amount])
        { s with locked := s.locked.insert p.asset.key rest }
  | paired {denom name symbol : String} {token : Address} {decimals : UInt8}
      (free : Registry.pairingFault? s token (.native denom) = none) :
      Effected s (.tokenDeployed denom token name symbol decimals) (.applied [])
        (Registry.pair ⟨token, .native denom, true⟩ s)
  | executed {nonce : UInt64} {token : Address} {b : Batch} {total : Amount} {u t : Store}
      {e : Effect} (found : s.batches.get? (token, nonce) = some b) (sum : b.total? = some total)
      (left : Exchanged [] b.transfers s u) (fewer : Batching.FewerBatches s u)
      (moved : PoolMoved s u) (settled : Settled token total u e t) :
      Effected s (.batchExecuted nonce token) e t

theorem Batching.executedEffected {token : Address} {nonce : UInt64} (h : Holding s)
    (done : Yields (executed token nonce) s e t) : Effected s (.batchExecuted nonce token) e t := by
  rcases executedYields done with ⟨_, rfl, rfl⟩ | ⟨b, u, total, found, sum, older, last⟩
  · refine .idle .here (fun v => ?_) (fun m paid => nomatch paid)
    simp [executedBy?]
  · obtain ⟨kept, fewer⟩ := dissolvesExchanged h older
    have discarded := kept.trans (discardExchanged kept.holding (olderSpares older found))
    refine .executed found sum discarded (fun k c stored => fewer k c (discardFewer k c stored))
      (clearedMoves nonce older) ?_
    split at last
    · rename_i missing
      obtain ⟨rfl, rfl⟩ := last
      exact .unpaired missing
    · rename_i p paired
      rcases settleYields last with ⟨ours, locked, inRange, rfl, rfl⟩ | ⟨foreign, rfl, rfl⟩
      · exact .locked paired ours inRange
      · exact .burned paired foreign

theorem Registry.depositedEffected {nonce : UInt64} {token sender : Address} {amount : Amount}
    {receiver : String} (done : Yields (deposited nonce token amount receiver) s e t) :
    Effected s (.deposit token amount sender receiver) e t := by
  rcases depositedYields done with ⟨_, rfl, rfl⟩ | ⟨a, _, ⟨p, paired, paid⟩ | ⟨_, rfl, rfl⟩⟩
  · exact .idle .here (fun _ => rfl) (fun m paid => nomatch paid)
  · rcases payOutYields paid with ⟨ours, rest, left, rfl, rfl⟩ | ⟨_, rfl, rfl⟩ | ⟨_, rfl, rfl⟩
    · exact .released paired ours left
    · exact .idle .here (fun _ => rfl) (fun m paid => nomatch paid)
    · refine .idle .here (fun _ => rfl) (fun m paid => ?_)
      split at paid
      · exact ⟨_, _, _, List.mem_singleton.1 paid⟩
      · cases paid
  · exact .idle ⟨rfl, rfl, rfl, rfl, rfl, rfl, rfl, rfl⟩ (fun _ => rfl) (fun m paid => nomatch paid)

theorem Observing.takeEffectEffected {claim : Claim} (h : Holding s)
    (done : Yields (takeEffect block claim) s e t) : Effected s claim.event e t := by
  unfold takeEffect at done
  cases kind : claim.event with
  | deposit token amount sender receiver =>
    rw [kind] at done
    exact Registry.depositedEffected done
  | batchExecuted nonce token =>
    rw [kind] at done
    exact Batching.executedEffected h done
  | callExecuted scope nonce =>
    rw [kind] at done
    obtain ⟨_, rfl, rfl⟩ := callExecutedYields done
    exact .idle ⟨rfl, rfl, rfl, rfl, rfl, rfl, rfl, rfl⟩ (fun _ => rfl) (fun m paid => nomatch paid)
  | tokenDeployed denom token name symbol decimals =>
    rw [kind] at done
    rcases Registry.deployedYields done with ⟨_, _, rfl, rfl⟩ | ⟨free, rfl, rfl⟩
    · exact .idle .here (fun _ => rfl) (fun m paid => nomatch paid)
    · exact .paired free
  | signersUpdated setNonce members rewardAmount rewardToken =>
    rw [kind] at done
    obtain ⟨rfl, rfl⟩ := SignerSet.installedYields done
    exact .idle ⟨rfl, rfl, rfl, rfl, rfl, rfl, rfl, rfl⟩ (fun _ => rfl) (fun m paid => nomatch paid)

end TokenBridge
