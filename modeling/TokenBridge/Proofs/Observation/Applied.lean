import TokenBridge.Proofs.Observation.Completion
/-!
What effects read. While no batch is stored, an effect reads and writes books that votes are no part of, so the
effects of the same claims in the same order come out the same whoever voted for them and when.
-/
namespace TokenBridge

open TokenBridge.Action

variable {s t u v : Store} {block : Block} {height : UInt64} {claim : Claim} {e : Effect}

def Store.unvoted (s : Store) : Store :=
  { s with attestations := ∅, observedNonce := 0, ethHeight := 0, lastVoted := ∅ }

@[simp] theorem Store.unvotedLocked : s.unvoted.locked = s.locked := rfl

@[simp] theorem Store.unvotedPairings : s.unvoted.pairings = s.pairings := rfl

def Store.Unbatched (s : Store) : Prop := ∀ k, s.batches.get? k = none

namespace Batching

theorem executedUnbatched {token : Address} {nonce : UInt64} (unbatched : s.Unbatched)
    (h : Yields (executed token nonce) s e t) : e = .failed (.noBatch token nonce) ∧ t = s := by
  rcases executedYields h with ⟨_, failed, same⟩ | ⟨b, _, _, found, _⟩
  · exact ⟨failed, same⟩
  · rw [unbatched] at found
    cases found

end Batching

namespace Observing

theorem takeEffectBooks (unbatched : s.Unbatched) (h : Yields (takeEffect block claim) s e t) :
    ∃ executedCalls parked observedSet locked pairings tokenOf,
      t = { s with executedCalls, parked, observedSet, locked, pairings, tokenOf } := by
  unfold takeEffect at h
  split at h
  · rcases Registry.depositedYields h with ⟨_, _, rfl⟩ | ⟨a, _, ⟨p, _, paid⟩ | ⟨_, _, rfl⟩⟩
    · exact ⟨_, _, _, _, _, _, rfl⟩
    · rcases Registry.payOutYields paid with ⟨_, _, _, rfl, _⟩ | ⟨_, rfl, _⟩ | ⟨_, rfl, _⟩
      · exact ⟨_, _, _, _, _, _, rfl⟩
      · exact ⟨_, _, _, _, _, _, rfl⟩
      · exact ⟨_, _, _, _, _, _, rfl⟩
    · exact ⟨_, _, _, _, _, _, rfl⟩
  · obtain ⟨_, rfl⟩ := Batching.executedUnbatched unbatched h
    exact ⟨_, _, _, _, _, _, rfl⟩
  · obtain ⟨_, _, rfl⟩ := callExecutedYields h
    exact ⟨_, _, _, _, _, _, rfl⟩
  · rcases Registry.deployedYields h with ⟨_, _, _, rfl⟩ | ⟨_, _, rfl⟩
    · exact ⟨_, _, _, _, _, _, rfl⟩
    · exact ⟨_, _, _, _, _, _, rfl⟩
  · obtain ⟨_, rfl⟩ := SignerSet.installedYields h
    exact ⟨_, _, _, _, _, _, rfl⟩

end Observing

namespace Registry

theorem payOutUnvoted {p : Pairing} {receiver : Account} {amount : Amount}
    (h : Yields (payOut p receiver amount) s e t) :
    Yields (payOut p receiver amount) s.unvoted e t.unvoted := by
  cases ours : p.ofThisChain with
  | true =>
    cases left : (s.locked.getD p.asset.key .zero).sub? amount with
    | none => simp_all [payOut]
    | some rest => simp_all [payOut, Store.unvoted]
  | false =>
    cases asset : p.asset with
    | native denom => simp_all [payOut]
    | cw20 contract => simp_all [payOut]

theorem depositedUnvoted {nonce : UInt64} {token : Address} {amount : Amount} {receiver : String}
    (h : Yields (deposited nonce token amount receiver) s e t) :
    Yields (deposited nonce token amount receiver) s.unvoted e t.unvoted := by
  cases valid : Account.validate receiver with
  | error fault => simp_all [deposited]
  | ok a =>
    cases paired : s.pairings.get? token with
    | none => simp_all [deposited, Store.unvoted]
    | some p =>
      simp only [deposited, valid, yieldsBind, yieldsGet] at h ⊢
      obtain ⟨_, _, ⟨rfl, rfl⟩, h⟩ := h
      rw [paired] at h
      refine ⟨_, _, ⟨rfl, rfl⟩, ?_⟩
      simpa [paired] using payOutUnvoted h

theorem deployedUnvoted {denom : String} {token : Address} (h : Yields (deployed denom token) s e t) :
    Yields (deployed denom token) s.unvoted e t.unvoted := by
  have fault : pairingFault? s.unvoted token (.native denom) = pairingFault? s token (.native denom) := rfl
  cases taken : pairingFault? s token (.native denom) with
  | none => simp_all [deployed, pair, Store.unvoted]
  | some why => simp_all [deployed]

end Registry

namespace Observing

theorem takeEffectUnvoted (unbatched : s.Unbatched) (h : Yields (takeEffect block claim) s e t) :
    Yields (takeEffect ⟨block.height, 0⟩ claim) s.unvoted e t.unvoted := by
  unfold takeEffect at h ⊢
  cases kind : claim.event with
  | deposit token amount sender receiver =>
    rw [kind] at h
    exact Registry.depositedUnvoted h
  | batchExecuted nonce token =>
    rw [kind] at h
    obtain ⟨rfl, rfl⟩ := Batching.executedUnbatched unbatched h
    have none : t.batches.get? (token, nonce) = none := unbatched _
    simp [Batching.executed, Store.unvoted, none]
  | callExecuted scope nonce =>
    rw [kind] at h
    obtain ⟨short, rfl, rfl⟩ := callExecutedYields h
    simp [callExecuted, Store.unvoted, short]
  | tokenDeployed denom token name symbol decimals =>
    rw [kind] at h
    exact Registry.deployedUnvoted h
  | signersUpdated nonce members rewardAmount rewardToken =>
    rw [kind] at h
    simp_all [SignerSet.installed, Store.unvoted]

def Applied (height : UInt64) (claims : List Claim) (s : Store) (es : List Effect) (t : Store) : Prop :=
  Yields (claims.mapM (takeEffect ⟨height, 0⟩)) s.unvoted es t.unvoted

theorem Applied.none : Applied height [] s [] s := by
  simp [Applied]

theorem Applied.snoc {claims : List Claim} {es : List Effect} (past : Applied height claims s es u)
    (atHeight : block.height = height) (unbatched : v.Unbatched) (same : v.unvoted = u.unvoted)
    (effect : Yields (takeEffect block claim) v e t) :
    Applied height (claims ++ [claim]) s (es ++ [e]) t := by
  have last := takeEffectUnvoted unbatched effect
  rw [atHeight, same] at last
  unfold Applied
  rw [List.mapM_append]
  simp only [List.mapM_cons, List.mapM_nil, yieldsBind, yieldsPure]
  exact ⟨es, _, past, [e], _, ⟨e, _, last, [], _, ⟨rfl, rfl⟩, rfl, rfl⟩, rfl, rfl⟩

theorem Applied.alone {claims : List Claim} {es fs : List Effect} (h : Applied height claims s es t)
    (h' : Applied height claims s fs u) : es = fs ∧ t.unvoted = u.unvoted :=
  Yields.alone h h'

end Observing

end TokenBridge
