import TokenBridge.Proofs.Directory.Keys
import TokenBridge.Proofs.Observation.Completion
import TokenBridge.Proofs.Voting.Ballot
import TokenBridge.Proofs.Voting.TwoThirds
/-!
No validator is kept from voting. At every point of a run its orchestrator is told its last nonce, and the nonce after
that takes its vote: for what was observed there, or, where nothing is observed yet, for what may stand there.
-/
namespace TokenBridge

open TokenBridge.Action

variable {s t : Store} {block : Block} {os : List Observation}

def Store.SoundClaims (s : Store) : Prop :=
  ∀ k a, s.attestations.get? k = some a → a.claim.fault? = none

theorem Store.SoundClaims.empty : Store.empty.SoundClaims := by
  intro k a found
  cases found

theorem Observes.soundClaims (inv : s.SoundClaims) (h : Observes block s os t) : t.SoundClaims := by
  obtain ⟨u, w, voted, pass, kept⟩ := h
  intro k a found
  rw [kept.attestations] at found
  obtain ⟨b, found, same⟩ := Observing.passClaims pass found
  rw [← same]
  rcases voted with rfl | ⟨_, _, claim, _, sound, cast⟩
  · exact inv k b found
  · rcases Voting.castClaims cast found with new | ⟨d, old, same⟩
    · rw [new]
      exact sound
    · rw [← same]
      exact inv k d old

namespace Voting

variable {v : Account} {n : UInt64}

theorem claimTaken (inv : InOrder s os) (disciplined : Disciplined s) (attested : Attested s)
    (sound : s.SoundClaims) (next : n.toNat = (lastNonce s v).toNat + 1) (policy : ConflictPolicy)
    (height : UInt64) :
    ∃ claim, claim.fault? = none ∧ claim.nonce = n ∧ Takes s policy v claim height := by
  have standing {p : Word} {a : Attestation} (found : s.attestations.get? (n, p) = some a)
      (allowed : contentRefusal? s policy n (s.attestations.get? (n, p)) = none) :
      ∃ claim, claim.fault? = none ∧ claim.nonce = n ∧ Takes s policy v claim height := by
    obtain ⟨_, rfl, rfl⟩ := attested n p a found
    exact ⟨a.claim, sound _ a found, rfl, (takesIff disciplined).2 ⟨next, allowed⟩⟩
  by_cases past : n.toNat ≤ s.observedNonce.toNat
  · obtain ⟨p, c, observed⟩ := inv.decided n (by omega) past
    have decided : s.ObservedAt n p := Store.observedAtIff.2 ⟨c, observed⟩
    have allowed : contentRefusal? s policy n (s.attestations.get? (n, p)) = none := (openPast past).2 decided
    obtain ⟨a, found, _⟩ := decided
    exact standing found allowed
  · have ahead : s.observedNonce.toNat < n.toNat := by omega
    by_cases some : s.AttestedAt n
    · obtain ⟨p, a, found⟩ := some
      exact standing found ((openAhead ahead).2 (.inr (.inr ⟨a, found⟩)))
    · have positive : n ≠ 0 := by
        rintro rfl
        exact absurd next (Nat.succ_ne_zero _).symm
      exact ⟨⟨n, 0, .callExecuted ⟨[]⟩ 0⟩, by simp [Claim.fault?, positive], rfl,
        (takesIff disciplined).2 ⟨next, (openAhead ahead).2 (.inr (.inl some))⟩⟩

end Voting

namespace Journal

variable {j : Journal}

theorem Run.soundClaims (run : Run j) : j.store.SoundClaims := by
  refine Run.keeps ?setUp ?deed run
  case setUp =>
    intro block m r t yields
    have observes : Observes block .empty r.observations t := Contract.setUpObserves yields
    exact observes.soundClaims .empty
  case deed =>
    intro j block order r t _ inv later yields
    exact (Chain.laterMovement later yields).observes.soundClaims inv

theorem Run.lastVoted (run : Run j) {o v : Account} (bound : j.store.validatorOf.get? o = some v) :
    Answers.lastVoted j.store o.name = .ok (Voting.lastNonce j.store v) := by
  rw [Answers.lastVoted, Answers.accountOf (run.named.orchestrators o v bound)]
  show (do
    let validator ← Answers.someOr (.notFound .validator) (j.store.validatorOf.get? o)
    return Voting.lastNonce j.store validator) = Except.ok _
  rw [bound]
  rfl

/-- Up to the last observed nonce a vote is taken for just the observed content, beyond it for any where contents do
not compete, and some sound claim is always taken. -/
theorem Run.votesTaken (run : Run j) {o v : Account} (bound : j.store.validatorOf.get? o = some v) :
    ∃ last, Answers.lastVoted j.store o.name = .ok last ∧
      (∀ policy claim height,
        (last.toNat + 1 ≤ j.store.observedNonce.toNat →
          (Voting.Takes j.store policy v claim height ↔
            claim.nonce.toNat = last.toNat + 1 ∧ j.store.ObservedAt claim.nonce claim.fingerprint)) ∧
        (j.store.observedNonce.toNat < last.toNat + 1 →
          (Voting.Takes j.store policy v claim height ↔ claim.nonce.toNat = last.toNat + 1 ∧
            (policy = .trackConcurrent ∨ ¬ j.store.AttestedAt claim.nonce ∨
              ∃ a, j.store.attestations.get? (claim.nonce, claim.fingerprint) = some a))) ∧
        (claim.nonce.toNat ≠ last.toNat + 1 → ¬ Voting.Takes j.store policy v claim height) ∧
        ∀ w n, Halts (Voting.cast policy v claim height) j.store (.refused (.duplicateVote w n)) j.store ↔
          w = v ∧ n = claim.nonce ∧ v ∈ j.store.voters claim.nonce claim.fingerprint) ∧
      ∀ n, n.toNat = last.toNat + 1 →
        (∀ p, v ∉ j.store.voters n p) ∧
        ∀ policy height, ∃ claim, claim.fault? = none ∧ claim.nonce = n ∧
          Voting.Takes j.store policy v claim height := by
  have disciplined := run.disciplined
  refine ⟨_, run.lastVoted bound, fun policy claim height => ⟨fun past => ?_, fun ahead => ?_, ?_, ?_⟩,
    fun n next => ⟨disciplined.fresh next, ?_⟩⟩
  · rw [Voting.takesIff disciplined]
    exact and_congr_right fun next => Voting.openPast (next ▸ past)
  · rw [Voting.takesIff disciplined]
    exact and_congr_right fun next => Voting.openAhead (next ▸ ahead)
  · rw [Voting.takesIff disciplined]
    exact fun apart taken => apart taken.1
  · exact fun w n => Voting.duplicateIff
  · exact Voting.claimTaken run.inOrder disciplined run.attested run.soundClaims next

def lagging : Journal :=
  elected.deliver ⟨105, 6⟩
    (.execute ⟨⟨"gamma"⟩, []⟩ (.setOrchestrator "third" "0x0000000000000000000000000000000000000003"))

theorem laggingRun : Run lagging := .order electedRun _ _ rfl

theorem laggingTaken :
    Run lagging ∧ Voting.Takes lagging.store .reject ⟨"gamma"⟩ electedClaim 60 ∧
      ¬ Voting.Takes lagging.store .trackConcurrent ⟨"gamma"⟩ ⟨1, 50, .callExecuted ⟨[]⟩ 0⟩ 60 ∧
      ⟨"gamma"⟩ ∉ lagging.store.voters 1 electedClaim.fingerprint ∧
      Voting.Takes lagging.store .reject ⟨"alpha"⟩ ⟨2, 50, .callExecuted ⟨[]⟩ 0⟩ 60 := by
  obtain ⟨third, first, toldThird, toldFirst, cursor⟩ :
      lagging.store.validatorOf.get? ⟨"third"⟩ = some ⟨"gamma"⟩ ∧
      lagging.store.validatorOf.get? ⟨"first"⟩ = some ⟨"alpha"⟩ ∧
      Answers.lastVoted lagging.store "third" = .ok 0 ∧ Answers.lastVoted lagging.store "first" = .ok 1 ∧
      lagging.store.observedNonce = 1 := by
    decide +kernel
  obtain ⟨observed, other, unvoted⟩ :
      lagging.store.observed? 1 electedClaim.fingerprint = some electedClaim ∧
      lagging.store.observed? 1 (Claim.fingerprint ⟨1, 50, .callExecuted ⟨[]⟩ 0⟩) = none ∧
      Voting.anyAt lagging.store 2 = false := by
    decide +kernel
  obtain ⟨last, told, taken, fresh⟩ := Run.votesTaken laggingRun third
  obtain rfl : (0 : UInt64) = last := Except.ok.inj (toldThird.symm.trans told)
  obtain ⟨last', told', taken', _⟩ := Run.votesTaken laggingRun first
  obtain rfl : (1 : UInt64) = last' := Except.ok.inj (toldFirst.symm.trans told')
  have past : (0 : UInt64).toNat + 1 ≤ lagging.store.observedNonce.toNat := by
    rw [cursor]
    decide
  have ahead : lagging.store.observedNonce.toNat < (1 : UInt64).toNat + 1 := by
    rw [cursor]
    decide
  refine ⟨laggingRun, ((taken _ _ _).1 past).2 ⟨rfl, Store.observedAtIff.2 ⟨_, observed⟩⟩, fun accepted => ?_,
    (fresh 1 rfl).1 _, ((taken' _ _ _).2.1 ahead).2 ⟨rfl, .inr (.inl fun some => ?_)⟩⟩
  · obtain ⟨_, found⟩ := Store.observedAtIff.1 (((taken _ _ _).1 past).1 accepted).2
    rw [other] at found
    cases found
  · rw [← Voting.anyAtIff, unvoted] at some
    cases some

end Journal

end TokenBridge
