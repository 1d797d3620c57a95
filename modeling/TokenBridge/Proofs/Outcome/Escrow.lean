import TokenBridge.SortedMap.Lemmas
import TokenBridge.Proofs.Outcome.Basic
import Mathlib.Algebra.GroupWithZero.Nat
import Mathlib.Data.Option.Basic
/-!
The messages and effects that move escrow: transfers into the pool and out of it, batches, the registry
and deposits.
-/
namespace TokenBridge

open TokenBridge.Action

variable {s t : Store} {block : Block} {caller : Caller} {r : Response} {e : Effect}

namespace Pool

structure Entered (s : Store) (sender : Account) (asset : Asset) (sent fee : Amount) (x : Transfer) :
    Prop where
  numbered : Counter.next? s.lastTransfer = some x.id
  ofSender : x.sender = sender
  inAsset : x.asset = asset
  paired : s.tokenOf.get? asset.key = some x.token
  atFee : x.fee = fee
  covered : x.amount.val + x.fee.val = sent.val
  positive : 0 < x.amount.val

theorem amountAfterFeeOk {c : Config} {sent fee amount : Amount}
    (h : amountAfterFee c sent fee = .ok amount) :
    amount.val + fee.val = sent.val ∧ 0 < amount.val := by
  unfold amountAfterFee Amount.sub? at h
  split at h
  · cases h
  · rename_i left found
    split at h
    · cases h
    · rename_i positive
      split at h
      · cases h
      · split at h
        · cases h
        · cases h
          split at found
          · rename_i enough
            cases found
            simp only [Amount.isZero, beq_iff_eq] at positive
            dsimp only at positive ⊢
            omega
          · cases found

theorem enqueueYields {sender : Account} {asset : Asset} {sent fee : Amount} {destination : String}
    {x : Transfer} (h : Yields (enqueue sender asset sent destination fee) s x t) :
    Entered s sender asset sent fee x ∧ Address.parse destination = .ok x.destination ∧
      t = add x { s with lastTransfer := x.id } := by
  simp only [enqueue, yieldsBind, yieldsConfig, yieldsRequire, yieldsAddress, yieldsGet,
    yieldsSomeOr, yieldsOfExcept, yieldsInRange, yieldsModify, yieldsPure] at h
  obtain ⟨c, _, ⟨found, rfl⟩, _, _, ⟨_, rfl⟩, destination, _, ⟨parsed, rfl⟩, _, _, ⟨rfl, rfl⟩,
    token, _, ⟨paired, rfl⟩, amount, _, ⟨left, rfl⟩, _, _, ⟨rfl, rfl⟩, id, _, ⟨next, rfl⟩, _, _,
    rfl, rfl, rfl⟩ := h
  have afterFee : amountAfterFee c sent fee = .ok amount := by
    cases found : amountAfterFee c sent fee with
    | error why => simp [found, Except.mapError] at left
    | ok a => simpa [found, Except.mapError] using left
  obtain ⟨covered, positive⟩ := amountAfterFeeOk afterFee
  exact ⟨⟨next, rfl, rfl, paired, rfl, covered, positive⟩, parsed, rfl⟩

theorem enqueueMade {c : Config} {sender : Account} {asset : Asset} {sent fee amount : Amount} {written : String}
    {destination token : Address} {id : UInt64} (configured : s.config = some c) (running : c.paused = false)
    (parsed : Address.parse written = .ok destination) (paired : s.tokenOf.get? asset.key = some token)
    (left : amountAfterFee c sent fee = .ok amount) (next : Counter.next? s.lastTransfer = some id) :
    Yields (enqueue sender asset sent written fee) s ⟨id, sender, destination, token, amount, fee, asset⟩
      (add ⟨id, sender, destination, token, amount, fee, asset⟩ { s with lastTransfer := id }) := by
  have afterFee : (amountAfterFee c sent fee).mapError Halt.refused = .ok amount := by
    rw [left]
    rfl
  simp only [enqueue, yieldsBind, yieldsConfig, yieldsRequire, yieldsAddress, yieldsGet, yieldsSomeOr, yieldsOfExcept,
    yieldsInRange, yieldsModify, yieldsPure]
  exact ⟨c, s, ⟨configured, rfl⟩, (), s, ⟨by simp [running], rfl⟩, destination, s, ⟨parsed, rfl⟩, s, s, ⟨rfl, rfl⟩,
    token, s, ⟨paired, rfl⟩, amount, s, ⟨afterFee, rfl⟩, s, s, ⟨rfl, rfl⟩, id, s, ⟨next, rfl⟩, ⟨⟩, _, rfl, rfl, rfl⟩

theorem sendToEthYields {destination : String} {fee : Amount}
    (h : Yields (sendToEth caller destination fee) s r t) :
    ∃ denom sent x, caller.funds = [(denom, sent)] ∧
      Entered s caller.sender (.native denom) sent fee x ∧ r = receipt "send_to_eth" x ∧
      t = add x { s with lastTransfer := x.id } := by
  unfold sendToEth at h
  split at h
  · rename_i denom sent funds
    simp only [yieldsBind, yieldsPure] at h
    obtain ⟨x, _, entered, rfl, rfl⟩ := h
    obtain ⟨facts, _, rfl⟩ := enqueueYields entered
    exact ⟨denom, sent, x, funds, facts, rfl, rfl⟩
  · exact absurd h yieldsRefuse

theorem receiveYields {sender : String} {sent : Amount} {handover : Option Handover}
    (h : Yields (receive caller sender sent handover) s r t) :
    ∃ a x, Account.validate sender = .ok a ∧
      (∃ fee, Entered s a (.cw20 caller.sender) sent fee x) ∧
      r = receipt "send_to_eth_cw20" x ∧ t = add x { s with lastTransfer := x.id } := by
  simp only [receive, yieldsBind, yieldsAccount, yieldsSomeOr, yieldsPure] at h
  obtain ⟨a, _, ⟨valid, rfl⟩, given, _, ⟨_, rfl⟩, x, _, entered, rfl, rfl⟩ := h
  obtain ⟨facts, _, rfl⟩ := enqueueYields entered
  exact ⟨a, x, valid, ⟨given.fee, facts⟩, rfl, rfl⟩

theorem cancelYields {id : UInt64} (h : Yields (cancel caller id) s r t) :
    ∃ x total, s.pool.get? id = some x ∧ x.sender = caller.sender ∧ x.total? = some total ∧
      t = remove x s ∧ r = (Response.of "cancel_send_to_eth"
        [("transaction_id", toString id), ("refund", toString total),
          ("asset", x.asset.key)]).paying [x.asset.payout x.sender total] := by
  simp only [cancel, yieldsBind, yieldsGet] at h
  obtain ⟨_, w, ⟨rfl, rfl⟩, h⟩ := h
  split at h
  · split at h <;> exact absurd h yieldsRefuse
  · rename_i x found
    simp only [yieldsBind, yieldsRequire, yieldsSet, yieldsInRange, yieldsPure] at h
    obtain ⟨_, _, ⟨sender, rfl⟩, _, _, rfl, total, _, ⟨inRange, rfl⟩, rfl, rfl⟩ := h
    exact ⟨x, total, found, by simpa using sender, inRange, rfl, rfl⟩

end Pool

namespace Batching

theorem assembleYields {token : Address} {limit : Nat} {height timeout : UInt64} {b : Batch}
    (h : Yields (assemble token limit height timeout) s b t) :
    chosen s token limit ≠ [] ∧
      (chosen s token limit).map s.pool.get? = b.transfers.map some ∧
      b.token = token ∧ b.block = height ∧ b.timeout = timeout ∧
      Counter.next? ((Pool.removeAll b.transfers s).lastBatch.getD token 0) = some b.nonce ∧
      t = { Pool.removeAll b.transfers s with
        lastBatch := (Pool.removeAll b.transfers s).lastBatch.insert token b.nonce
        batches := (Pool.removeAll b.transfers s).batches.insert (token, b.nonce) b } := by
  have reads : ∀ id x u v,
      Yields (someOr Refusal.absent (s.pool.get? id)) u x v ↔ s.pool.get? id = some x ∧ v = u :=
    fun _ _ _ _ => yieldsSomeOr
  simp only [assemble, yieldsBind, yieldsGet, yieldsRequire, yieldsModify, yieldsInRange,
    yieldsPure] at h
  obtain ⟨_, _, ⟨rfl, rfl⟩, _, _, ⟨filled, rfl⟩, transfers, _, read, _, _, rfl, _, _, ⟨rfl, rfl⟩,
    nonce, _, ⟨next, rfl⟩, _, _, rfl, rfl, rfl⟩ := h
  obtain ⟨found, rfl⟩ := (yieldsMapM reads).1 read
  exact ⟨by simpa using filled, found, rfl, rfl, rfl, next, rfl⟩

theorem requestYields {token : String} {limit : Option UInt32}
    (h : Yields (request block token limit) s r t) :
    ∃ k n timeout b, Address.parse token = .ok k ∧ s.ethHeight ≠ 0 ∧
      Yields (assemble k n block.height timeout) s b t ∧
      r.messages = [] ∧ r.observations = [] := by
  simp only [request, yieldsBind, yieldsConfig, yieldsRequire, yieldsAddress, yieldsGet,
    yieldsPure] at h
  obtain ⟨c, _, ⟨found, rfl⟩, _, _, ⟨_, rfl⟩, k, _, ⟨parsed, rfl⟩, _, _, ⟨_, rfl⟩, _, _, ⟨rfl, rfl⟩,
    _, _, ⟨height, rfl⟩, b, _, made, rfl, rfl⟩ := h
  exact ⟨k, _, _, b, parsed, by simpa using height, made, rfl, rfl⟩

theorem requestMade {c : Config} {written : String} {token : Address} {limit : Option UInt32} {n : Nat} {b : Batch}
    (configured : s.config = some c) (running : c.paused = false) (parsed : Address.parse written = .ok token)
    (limited : min (limit.getD c.maxBatchSize).toNat c.maxBatchSize.toNat = n) (positive : 1 ≤ n)
    (height : s.ethHeight ≠ 0)
    (made : Yields (assemble token n block.height (Counter.cappedAdd s.ethHeight c.batchTimeoutBlocks)) s b t) :
    ∃ r, Yields (request block written limit) s r t := by
  subst limited
  simp only [request, yieldsBind, yieldsConfig, yieldsRequire, yieldsAddress, yieldsGet, yieldsPure]
  exact ⟨_, c, s, ⟨configured, rfl⟩, (), s, ⟨by simp [running], rfl⟩, token, s, ⟨parsed, rfl⟩, (), s,
    ⟨bne_iff_ne.2 (Nat.one_le_iff_ne_zero.1 positive), rfl⟩, s, s, ⟨rfl, rfl⟩, (), s,
    ⟨bne_iff_ne.2 height, rfl⟩, b, t, made, rfl, rfl⟩

theorem dissolveYields {token : Address} {nonce : UInt64} {u : PUnit}
    (h : Yields (dissolve token nonce) s u t) :
    ∃ b, s.batches.get? (token, nonce) = some b ∧
      t = discard token nonce (Pool.addAll b.transfers s) := by
  simp only [dissolve, yieldsBind, yieldsGet, yieldsSomeOr, yieldsModify] at h
  obtain ⟨_, _, ⟨rfl, rfl⟩, b, _, ⟨found, rfl⟩, rfl⟩ := h
  exact ⟨b, found, rfl⟩

theorem dissolveMade {token : Address} {nonce : UInt64} {b : Batch} (found : s.batches.get? (token, nonce) = some b) :
    Yields (dissolve token nonce) s ⟨⟩ (discard token nonce (Pool.addAll b.transfers s)) := by
  simp only [dissolve, yieldsBind, yieldsGet, yieldsSomeOr, yieldsModify]
  exact ⟨s, s, ⟨rfl, rfl⟩, b, s, ⟨found, rfl⟩, rfl⟩

theorem dissolveExpiredYields {batches : List Batch} (h : Yields dissolveExpired s batches t) :
    batches = expired s ∧
      Yields (forM (expired s) fun b => dissolve b.token b.nonce) s ⟨⟩ t := by
  simp only [dissolveExpired, yieldsBind, yieldsGet, yieldsPure, List.forM_eq_forM] at h
  obtain ⟨_, _, ⟨rfl, rfl⟩, _, _, loop, rfl, rfl⟩ := h
  exact ⟨rfl, loop⟩

theorem settleYields {p : Pairing} {total : Amount} (h : Yields (settle p total) s e t) :
    (p.ofThisChain = true ∧ ∃ locked, (s.locked.getD p.asset.key .zero).add? total = some locked ∧
      t = { s with locked := s.locked.insert p.asset.key locked } ∧ e = .applied []) ∨
    (p.ofThisChain = false ∧ t = s ∧ e = .applied (match p.asset with
      | .cw20 contract => if total.isZero then [] else [.call contract (.burn total)]
      | .native _ => [])) := by
  unfold settle at h
  split at h
  · rename_i ours
    simp only [yieldsBind, yieldsGet, yieldsInRange, yieldsSet, yieldsPure] at h
    obtain ⟨_, _, ⟨rfl, rfl⟩, locked, _, ⟨sum, rfl⟩, _, _, rfl, rfl, rfl⟩ := h
    exact .inl ⟨ours, locked, sum, rfl, rfl⟩
  · rename_i foreign
    refine .inr ⟨by simpa using foreign, ?_⟩
    cases kind : p.asset with
    | cw20 contract =>
      rw [kind] at h
      obtain ⟨rfl, rfl⟩ := yieldsPure.1 h
      exact ⟨rfl, rfl⟩
    | native denom =>
      rw [kind] at h
      obtain ⟨rfl, rfl⟩ := yieldsPure.1 h
      exact ⟨rfl, rfl⟩

theorem executedYields {token : Address} {nonce : UInt64}
    (h : Yields (executed token nonce) s e t) :
    (s.batches.get? (token, nonce) = none ∧ e = .failed (.noBatch token nonce) ∧ t = s) ∨
    ∃ b u total, s.batches.get? (token, nonce) = some b ∧ b.total? = some total ∧
      Yields (forM (olderThan s token nonce) (dissolve token)) s ⟨⟩ u ∧
      match (discard token nonce u).pairings.get? token with
      | none => e = .failed (.unpaired token) ∧ t = discard token nonce u
      | some p => Yields (settle p total) (discard token nonce u) e t := by
  simp only [executed, yieldsBind, yieldsGet] at h
  obtain ⟨_, _, ⟨rfl, rfl⟩, h⟩ := h
  split at h
  · rename_i missing
    obtain ⟨rfl, rfl⟩ := yieldsPure.1 h
    exact .inl ⟨missing, rfl, rfl⟩
  · rename_i b found
    simp only [yieldsBind, yieldsGet, yieldsModify, yieldsInRange, List.forM_eq_forM] at h
    obtain ⟨_, u, older, _, _, rfl, total, _, ⟨sum, rfl⟩, _, _, ⟨rfl, rfl⟩, last⟩ := h
    refine .inr ⟨b, u, total, found, sum, older, ?_⟩
    cases paired : (discard token nonce u).pairings.get? token with
    | none =>
      rw [paired] at last
      obtain ⟨rfl, rfl⟩ := yieldsPure.1 last
      exact ⟨rfl, rfl⟩
    | some p =>
      rw [paired] at last
      exact last

end Batching

namespace Registry

theorem pairingFree {token : Address} {asset : Asset} (free : pairingFault? s token asset = none) :
    s.pairings.get? token = none ∧ s.tokenOf.get? asset.key = none := by
  unfold pairingFault? at free
  split at free
  · cases free
  · rename_i untaken
    split at free
    · cases free
    · rename_i unused
      exact ⟨SortedMap.absentIff.1 (by simpa using untaken), SortedMap.absentIff.1 (by simpa using unused)⟩

theorem registerTokenYields {token cw20 : String} (h : Yields (registerToken caller token cw20) s r t) :
    ∃ c k a, s.config = some c ∧ caller.sender = c.admin ∧ Address.parse token = .ok k ∧
      Account.validate cw20 = .ok a ∧ pairingFault? s k (.cw20 a) = none ∧
      t = unparkAll k (parkedFor s k) (pair ⟨k, .cw20 a, false⟩ s) ∧
      r = (Response.of "register_ethereum_token"
        [("token_contract", toString k), ("cw20", toString a),
          ("replayed_deposits", toString (parkedFor s k).length)]).paying
            ((parkedFor s k).map (mint a)) := by
  simp only [registerToken, yieldsBind, yieldsConfigFor, yieldsAddress, yieldsAccount, yieldsGet,
    yieldsRefuseIf, yieldsSet, yieldsPure, Option.map_eq_none_iff] at h
  obtain ⟨c, _, ⟨found, admin, rfl⟩, k, _, ⟨parsed, rfl⟩, a, _, ⟨valid, rfl⟩, _, _, ⟨rfl, rfl⟩,
    _, _, ⟨free, rfl⟩, _, _, rfl, rfl, rfl⟩ := h
  exact ⟨c, k, a, found, admin, parsed, valid, free, rfl, rfl⟩

theorem deployedYields {denom : String} {token : Address} (h : Yields (deployed denom token) s e t) :
    (∃ fault, pairingFault? s token (.native denom) = some fault ∧ e = .failed (.pairing fault) ∧
      t = s) ∨
    (pairingFault? s token (.native denom) = none ∧ e = .applied [] ∧
      t = pair ⟨token, .native denom, true⟩ s) := by
  simp only [deployed, yieldsBind, yieldsGet] at h
  obtain ⟨_, _, ⟨rfl, rfl⟩, h⟩ := h
  split at h
  · rename_i fault found
    obtain ⟨rfl, rfl⟩ := yieldsPure.1 h
    exact .inl ⟨fault, found, rfl, rfl⟩
  · rename_i free
    simp only [yieldsBind, yieldsModify, yieldsPure] at h
    obtain ⟨_, _, rfl, rfl, rfl⟩ := h
    exact .inr ⟨free, rfl, rfl⟩

theorem payOutYields {p : Pairing} {receiver : Account} {amount : Amount}
    (h : Yields (payOut p receiver amount) s e t) :
    (p.ofThisChain = true ∧ ∃ rest, (s.locked.getD p.asset.key .zero).sub? amount = some rest ∧
      t = { s with locked := s.locked.insert p.asset.key rest } ∧
      e = .applied [p.asset.payout receiver amount]) ∨
    (p.ofThisChain = true ∧ t = s ∧
      e = .failed (.lockedBelow (s.locked.getD p.asset.key .zero) p.asset.key amount)) ∨
    (p.ofThisChain = false ∧ t = s ∧ e = match p.asset with
      | .cw20 contract => .applied [.call contract (.mint receiver amount)]
      | .native denom => .failed (.notMintable denom)) := by
  unfold payOut at h
  split at h
  · rename_i ours
    simp only [yieldsBind, yieldsGet] at h
    obtain ⟨_, _, ⟨rfl, rfl⟩, h⟩ := h
    split at h
    · obtain ⟨rfl, rfl⟩ := yieldsPure.1 h
      exact .inr (.inl ⟨ours, rfl, rfl⟩)
    · rename_i rest left
      simp only [yieldsBind, yieldsSet, yieldsPure] at h
      obtain ⟨_, _, rfl, rfl, rfl⟩ := h
      exact .inl ⟨ours, rest, left, rfl, rfl⟩
  · rename_i foreign
    refine .inr (.inr ⟨by simpa using foreign, ?_⟩)
    cases kind : p.asset with
    | cw20 contract =>
      rw [kind] at h
      obtain ⟨rfl, rfl⟩ := yieldsPure.1 h
      exact ⟨rfl, rfl⟩
    | native denom =>
      rw [kind] at h
      obtain ⟨rfl, rfl⟩ := yieldsPure.1 h
      exact ⟨rfl, rfl⟩

theorem depositedYields {nonce : UInt64} {token : Address} {amount : Amount} {receiver : String}
    (h : Yields (deposited nonce token amount receiver) s e t) :
    ((∃ fault, Account.validate receiver = .error fault) ∧ e = .failed (.receiver receiver) ∧ t = s) ∨
    ∃ a, Account.validate receiver = .ok a ∧
      ((∃ p, s.pairings.get? token = some p ∧ Yields (payOut p a amount) s e t) ∨
        (s.pairings.get? token = none ∧ e = .deferred token ∧
          t = { s with parked := s.parked.insert (token, nonce) ⟨nonce, a, amount⟩ })) := by
  unfold deposited at h
  split at h
  · rename_i fault invalid
    obtain ⟨rfl, rfl⟩ := yieldsPure.1 h
    exact .inl ⟨⟨fault, invalid⟩, rfl, rfl⟩
  · rename_i a valid
    simp only [yieldsBind, yieldsGet] at h
    obtain ⟨_, _, ⟨rfl, rfl⟩, h⟩ := h
    refine .inr ⟨a, valid, ?_⟩
    split at h
    · rename_i p paired
      exact .inl ⟨p, paired, h⟩
    · rename_i unpaired
      simp only [yieldsBind, yieldsModify, yieldsPure] at h
      obtain ⟨_, _, rfl, rfl, rfl⟩ := h
      exact .inr ⟨unpaired, rfl, rfl⟩

end Registry

end TokenBridge
