import TokenBridge.SortedMap.Lemmas
import TokenBridge.Proofs.Outcome.Administration
import TokenBridge.Proofs.Outcome.Escrow
/-!
Votes and the observations that they decide. A pass marks one attestation after another, each at the
nonce after the last observed one, and runs the effect of its claim once before the next.
-/
namespace TokenBridge

open TokenBridge.Action

variable {s t : Store} {block : Block} {caller : Caller} {r : Response}

namespace Voting

theorem attestationOk {policy : ConflictPolicy} {v : Account} {claim : Claim} {height : UInt64}
    {a : Attestation} (h : attestation s policy v claim height = .ok a) :
    Counter.next? (lastNonce s v) = some claim.nonce ∧
      ((∃ b, s.attestations.get? (claim.nonce, claim.fingerprint) = some b ∧ v ∉ b.votes ∧
          (Counter.below s.observedNonce claim.nonce = false → b.observed = true) ∧
          a = { b with votes := b.votes ++ [v] }) ∨
        (s.attestations.get? (claim.nonce, claim.fingerprint) = none ∧
          Counter.below s.observedNonce claim.nonce = true ∧ a = ⟨claim, [v], false, height⟩)) := by
  unfold attestation contentRefusal? at h
  dsimp only at h
  split at h
  · cases h
  · rename_i unvoted
    split at h
    · cases h
    · rename_i expected next
      split at h
      · cases h
      · rename_i same
        have same : claim.nonce = expected := by simpa using same
        split at h
        · cases h
        · rename_i accepted
          cases h
          refine ⟨same ▸ next, ?_⟩
          cases existing : s.attestations.get? (claim.nonce, claim.fingerprint) with
          | none =>
            refine .inr ⟨rfl, ?_, rfl⟩
            cases later : Counter.below s.observedNonce claim.nonce with
            | true => rfl
            | false => simp [existing, later] at accepted
          | some b =>
            refine .inl ⟨b, rfl, by simpa [existing] using unvoted, fun late => ?_, rfl⟩
            simpa [existing, late] using accepted

theorem castYields {policy : ConflictPolicy} {v : Account} {claim : Claim} {height : UInt64}
    {a : Attestation} (h : Yields (cast policy v claim height) s a t) :
    attestation s policy v claim height = .ok a ∧
      t = { s with
        attestations := s.attestations.insert (claim.nonce, claim.fingerprint) a
        lastVoted := s.lastVoted.insert v claim.nonce } := by
  simp only [cast, yieldsBind, yieldsGet, yieldsOfExcept, yieldsSet, yieldsPure] at h
  obtain ⟨_, _, ⟨rfl, rfl⟩, a, _, ⟨made, rfl⟩, _, _, rfl, rfl, rfl⟩ := h
  exact ⟨made, rfl⟩

theorem castMade {policy : ConflictPolicy} {v : Account} {claim : Claim} {height : UInt64}
    {a : Attestation} (made : attestation s policy v claim height = .ok a) :
    Yields (cast policy v claim height) s a { s with
      attestations := s.attestations.insert (claim.nonce, claim.fingerprint) a
      lastVoted := s.lastVoted.insert v claim.nonce } := by
  simp [cast, made]

end Voting

theorem SignerSet.installedYields {nonce : UInt64} {members : List Signer} {rewardAmount : Amount}
    {rewardToken : Address} {e : Effect}
    (h : Yields (installed block nonce members rewardAmount rewardToken) s e t) :
    e = .applied [] ∧ t = { s with
      observedSet := some (canonical ⟨nonce, block.height, members, rewardAmount, rewardToken⟩) } := by
  simp only [installed, yieldsBind, yieldsModify, yieldsPure] at h
  obtain ⟨_, _, rfl, rfl, rfl⟩ := h
  exact ⟨rfl, rfl⟩

namespace Observing

theorem callExecutedYields {scope : Blob} {nonce height : UInt64} {e : Effect}
    (h : Yields (callExecuted scope nonce height) s e t) :
    scope.bytes.length ≤ longestScope ∧ e = .applied [] ∧
      t = { s with executedCalls := s.executedCalls.insert (scope.bytes, nonce) height } := by
  simp only [callExecuted, yieldsBind, yieldsInRange, yieldsModify, yieldsPure] at h
  obtain ⟨_, _, ⟨short, rfl⟩, _, _, rfl, rfl, rfl⟩ := h
  refine ⟨?_, rfl, rfl⟩
  split at short
  · assumption
  · cases short

theorem winnerFound {view : StakeView} {nonce total : UInt64} {fingerprint : Word} {a : Attestation}
    (h : winner view s nonce total = some (fingerprint, a)) :
    s.attestations.get? (nonce, fingerprint) = some a ∧ a.observed = false ∧
      Power.threshold ≤ (view.share s a.votes total).toNat := by
  obtain ⟨⟨⟨n, _⟩, _⟩, found, same⟩ := Option.map_eq_some_iff.1 h
  cases same
  obtain ⟨here, atNonce⟩ := List.mem_filter.1 (List.mem_of_find?_eq_some found)
  have decided := List.find?_some found
  simp only [Bool.and_eq_true, Bool.not_eq_true', Nat.ble_eq] at decided
  have same : n = nonce := by simpa using atNonce
  subst same
  exact ⟨SortedMap.getIff.2 here, decided.1, decided.2⟩

inductive Pass (view : StakeView) (block : Block) : Store → List Observation → Store → Prop where
  | rest (s : Store) : Pass view block s [] s
  | observe {s u t : Store} {nonce : UInt64} {fingerprint : Word} {a : Attestation} {e : Effect}
      {later : List Observation}
      (powered : view.total s ≠ 0)
      (next : Counter.next? s.observedNonce = some nonce)
      (won : winner view s nonce (view.total s) = some (fingerprint, a))
      (effect : Yields (takeEffect block a.claim) (mark nonce fingerprint a s) e u)
      (after : Pass view block u later t) :
      Pass view block s
        (⟨nonce, fingerprint, a.claim, a.votes.length, (mark nonce fingerprint a s).ethHeight, e⟩
          :: later) t

theorem passQuiet {view : StakeView} (pass : Pass view block s [] t) : t = s := by
  cases pass
  rfl

theorem passSplit {view : StakeView} {os later : List Observation}
    (pass : Pass view block s (os ++ later) t) :
    ∃ v, Pass view block s os v ∧ Pass view block v later t := by
  induction os generalizing s with
  | nil => exact ⟨s, .rest s, pass⟩
  | cons o rest ih =>
    cases pass with
    | observe powered next won effect after =>
      obtain ⟨v, first, last⟩ := ih after
      exact ⟨v, .observe powered next won effect first, last⟩

theorem observeNextYields {view : StakeView} {o : Option Observation}
    (h : Yields (observeNext view block) s o t) :
    (o = none ∧ t = s) ∨
    ∃ nonce fingerprint a e, view.total s ≠ 0 ∧ Counter.next? s.observedNonce = some nonce ∧
      winner view s nonce (view.total s) = some (fingerprint, a) ∧
      Yields (takeEffect block a.claim) (mark nonce fingerprint a s) e t ∧
      o = some ⟨nonce, fingerprint, a.claim, a.votes.length, (mark nonce fingerprint a s).ethHeight,
        e⟩ := by
  simp only [observeNext, yieldsBind, yieldsGet] at h
  obtain ⟨_, _, ⟨rfl, rfl⟩, h⟩ := h
  split at h
  · obtain ⟨rfl, rfl⟩ := yieldsPure.1 h
    exact .inl ⟨rfl, rfl⟩
  · rename_i powered
    simp only [yieldsBind, yieldsInRange] at h
    obtain ⟨nonce, _, ⟨next, rfl⟩, h⟩ := h
    split at h
    · obtain ⟨rfl, rfl⟩ := yieldsPure.1 h
      exact .inl ⟨rfl, rfl⟩
    · rename_i fingerprint a won
      simp only [yieldsBind, yieldsSet, yieldsPure] at h
      obtain ⟨_, _, rfl, e, _, effect, rfl, rfl⟩ := h
      exact .inr ⟨nonce, fingerprint, a, e, powered, next, won, effect, rfl⟩

theorem observeUpToPass {view : StakeView} {fuel : Nat} {os : List Observation}
    (h : Yields (observeUpTo view block fuel) s os t) : Pass view block s os t := by
  induction fuel generalizing s os with
  | zero =>
    obtain ⟨rfl, rfl⟩ := yieldsPure.1 h
    exact .rest _
  | succ fuel ih =>
    simp only [observeUpTo, yieldsBind] at h
    obtain ⟨o, u, first, h⟩ := h
    rcases observeNextYields first with ⟨rfl, rfl⟩ | ⟨n, p, a, e, powered, next, won, effect, rfl⟩
    · obtain ⟨rfl, rfl⟩ := yieldsPure.1 h
      exact .rest _
    · simp only [yieldsBind, yieldsPure] at h
      obtain ⟨later, _, tail, rfl, rfl⟩ := h
      exact .observe powered next won effect (ih tail)

theorem observePass {view : StakeView} {os : List Observation}
    (h : Yields (observe view block) s os t) : Pass view block s os t := by
  simp only [observe, yieldsBind, yieldsGet] at h
  obtain ⟨_, _, ⟨rfl, rfl⟩, h⟩ := h
  exact observeUpToPass h

structure Answers (r : Response) (os : List Observation) : Prop where
  messages : r.messages = os.flatMap fun o => o.effect.messages
  observations : r.observations = os

theorem submitObserves {claim : Claim} (h : Yields (submit block caller claim) s r t) :
    ∃ v c a u os, claim.fault? = none ∧ s.validatorOf.get? caller.sender = some v ∧
      s.config = some c ∧ Yields (Voting.cast c.conflictPolicy v claim block.height) s a u ∧
      Yields (observe .stored block) u os t ∧ Answers r os := by
  simp only [submit, Directory.validatorOf, yieldsBind, yieldsRefuseIf, yieldsGet, yieldsSomeOr,
    yieldsConfig, yieldsPure, Option.map_eq_none_iff] at h
  obtain ⟨_, _, ⟨sound, rfl⟩, v, _, ⟨_, _, ⟨rfl, rfl⟩, bound, rfl⟩, c, _, ⟨found, rfl⟩, a, u, voted,
    os, _, observed, rfl, rfl⟩ := h
  exact ⟨v, c, a, u, os, sound, bound, found, voted, observed, ⟨rfl, rfl⟩⟩

theorem submitYields {claim : Claim} (h : Yields (submit block caller claim) s r t) :
    ∃ v c a u os, claim.fault? = none ∧ s.validatorOf.get? caller.sender = some v ∧
      s.config = some c ∧ Yields (Voting.cast c.conflictPolicy v claim block.height) s a u ∧
      Pass .stored block u os t ∧ Answers r os := by
  obtain ⟨v, c, a, u, os, sound, bound, found, voted, observed, answers⟩ := submitObserves h
  exact ⟨v, c, a, u, os, sound, bound, found, voted, observePass observed, answers⟩

theorem processYields (h : Yields (process block) s r t) :
    ∃ os, Pass .stored block s os t ∧ Answers r os := by
  simp only [process, yieldsBind, yieldsPure] at h
  obtain ⟨os, _, observed, rfl, rfl⟩ := h
  exact ⟨os, observePass observed, ⟨rfl, rfl⟩⟩

end Observing

theorem Housekeeping.endBlockObserves (h : Yields (Housekeeping.endBlock block) s r t) :
    ∃ os u v stored, Yields (Observing.observe .stored block) s os u ∧
      Yields (forM (Batching.expired u) fun b => Batching.dissolve b.token b.nonce) u ⟨⟩ v ∧
      Yields (SignerSet.storeDrifted .stored block.height) v stored t ∧ Observing.Answers r os := by
  simp only [endBlock, yieldsBind, yieldsPure] at h
  obtain ⟨os, u, observed, batches, v, dissolved, stored, _, kept, rfl, rfl⟩ := h
  obtain ⟨rfl, loop⟩ := Batching.dissolveExpiredYields dissolved
  exact ⟨os, u, v, stored, observed, loop, kept, ⟨rfl, rfl⟩⟩

theorem Housekeeping.endBlockYields (h : Yields (Housekeeping.endBlock block) s r t) :
    ∃ os u v stored, Observing.Pass .stored block s os u ∧
      Yields (forM (Batching.expired u) fun b => Batching.dissolve b.token b.nonce) u ⟨⟩ v ∧
      Yields (SignerSet.storeDrifted .stored block.height) v stored t ∧ Observing.Answers r os := by
  obtain ⟨os, u, v, stored, observed, loop, kept, answers⟩ := endBlockObserves h
  exact ⟨os, u, v, stored, Observing.observePass observed, loop, kept, answers⟩

end TokenBridge
