import TokenBridge.Proofs.Outcome.Halting
import TokenBridge.Proofs.Voting.InTurn
/-!
When a vote is taken: just if it is for the nonce after its validator's last and for a content that is open to votes.
A validator has never voted at the nonce after its last, so no vote there is a duplicate.
-/
namespace TokenBridge

open TokenBridge.Action

variable {s : Store} {n : UInt64} {p : Word} {v w : Account} {policy : ConflictPolicy} {claim : Claim}
  {height : UInt64}

def Store.AttestedAt (s : Store) (nonce : UInt64) : Prop :=
  ∃ p a, s.attestations.get? (nonce, p) = some a

namespace Voting

theorem votedIff : (s.attestations.get? (n, p)).any (fun a => a.votes.contains v) = true ↔
    v ∈ s.voters n p := by
  simp [Option.any_eq_true, Store.memVoters]

theorem anyAtIff : anyAt s n = true ↔ s.AttestedAt n := by
  simp only [anyAt, List.any_eq_true, beq_iff_eq, Store.AttestedAt, SortedMap.getIff]
  constructor
  · rintro ⟨⟨⟨_, p⟩, a⟩, listed, rfl⟩
    exact ⟨p, a, listed⟩
  · rintro ⟨p, a, listed⟩
    exact ⟨((n, p), a), listed, rfl⟩

theorem openPast (past : n.toNat ≤ s.observedNonce.toNat) :
    contentRefusal? s policy n (s.attestations.get? (n, p)) = none ↔ s.ObservedAt n p := by
  have below : ¬ Counter.below s.observedNonce n = true := by
    rw [Counter.below, Nat.blt_eq]
    omega
  rw [contentRefusal?, if_neg below]
  cases found : s.attestations.get? (n, p) with
  | none => simp [Store.ObservedAt, found]
  | some a => simp [Store.ObservedAt, found]

theorem openAhead (ahead : s.observedNonce.toNat < n.toNat) :
    contentRefusal? s policy n (s.attestations.get? (n, p)) = none ↔
      policy = .trackConcurrent ∨ ¬ s.AttestedAt n ∨ ∃ a, s.attestations.get? (n, p) = some a := by
  have below : Counter.below s.observedNonce n = true := by
    rw [Counter.below, Nat.blt_eq]
    exact ahead
  rw [contentRefusal?, if_pos below, ← anyAtIff]
  cases policy with
  | trackConcurrent => simp
  | reject =>
    cases found : s.attestations.get? (n, p) with
    | none => simp
    | some a => simp

theorem refusalApart {existing : Option Attestation} {m : UInt64} :
    contentRefusal? s policy n existing ≠ some (.duplicateVote w m) := by
  unfold contentRefusal?
  split
  · split
    · simp
    · simp
  · split
    · simp
    · simp

theorem duplicateRefused (voted : v ∈ s.voters claim.nonce claim.fingerprint) :
    attestation s policy v claim height = .error (.refused (.duplicateVote v claim.nonce)) := by
  unfold attestation
  dsimp only
  rw [if_pos (votedIff.2 voted)]

def Allows (s : Store) (policy : ConflictPolicy) (validator : Account) (claim : Claim) : Prop :=
  claim.nonce.toNat = (lastNonce s validator).toNat + 1 ∧
    contentRefusal? s policy claim.nonce (s.attestations.get? (claim.nonce, claim.fingerprint)) = none

theorem firstVote (policy : ConflictPolicy) (height : UInt64)
    (unvoted : v ∉ s.voters claim.nonce claim.fingerprint) :
    (Allows s policy v claim ∧ ∃ a, attestation s policy v claim height = .ok a) ∨
    (¬ Allows s policy v claim ∧ ∃ halt, attestation s policy v claim height = .error halt ∧
      ∀ w m, halt ≠ .refused (.duplicateVote w m)) := by
  unfold Allows
  rw [← Counter.nextIff]
  unfold attestation
  dsimp only
  rw [if_neg fun voted => unvoted (votedIff.1 voted)]
  cases next : Counter.next? (lastNonce s v) with
  | none => exact .inr ⟨nofun, _, rfl, fun _ _ => nofun⟩
  | some expected =>
    dsimp only
    by_cases here : claim.nonce = expected
    · subst here
      rw [if_neg fun apart => apart rfl]
      cases refusal : contentRefusal? s policy claim.nonce
          (s.attestations.get? (claim.nonce, claim.fingerprint)) with
      | none => exact .inl ⟨⟨rfl, rfl⟩, _, rfl⟩
      | some why =>
        refine .inr ⟨nofun, _, rfl, fun w m same => ?_⟩
        cases same
        exact refusalApart refusal
    · rw [if_pos here]
      exact .inr ⟨fun allowed => here (Option.some.inj allowed.1).symm, _, rfl, fun _ _ => nofun⟩

theorem attestationIff : (∃ a, attestation s policy v claim height = .ok a) ↔
    v ∉ s.voters claim.nonce claim.fingerprint ∧ Allows s policy v claim := by
  by_cases voted : v ∈ s.voters claim.nonce claim.fingerprint
  · rw [duplicateRefused voted]
    exact iff_of_false nofun fun taken => taken.1 voted
  · rcases firstVote policy height voted with ⟨allowed, made⟩ | ⟨refused, _, halted, _⟩
    · exact iff_of_true made ⟨voted, allowed⟩
    · rw [halted]
      exact iff_of_false nofun fun taken => refused taken.2

theorem castHalts {halt : Halt} : Halts (cast policy v claim height) s halt s ↔
    attestation s policy v claim height = .error halt := by
  simp [cast]

theorem duplicateIff {m : UInt64} :
    Halts (cast policy v claim height) s (.refused (.duplicateVote w m)) s ↔
      w = v ∧ m = claim.nonce ∧ v ∈ s.voters claim.nonce claim.fingerprint := by
  rw [castHalts]
  by_cases voted : v ∈ s.voters claim.nonce claim.fingerprint
  · rw [duplicateRefused voted]
    simp [voted, eq_comm]
  · refine iff_of_false (fun duplicate => ?_) fun taken => voted taken.2.2
    rcases firstVote policy height voted with ⟨_, _, made⟩ | ⟨_, _, halted, apart⟩
    · rw [made] at duplicate
      cases duplicate
    · rw [halted] at duplicate
      exact apart w m (Except.error.inj duplicate)

def Takes (s : Store) (policy : ConflictPolicy) (validator : Account) (claim : Claim) (height : UInt64) : Prop :=
  ∃ a t, Yields (cast policy validator claim height) s a t

theorem takesIff (inv : Disciplined s) : Takes s policy v claim height ↔ Allows s policy v claim := by
  have made : Takes s policy v claim height ↔ ∃ a, attestation s policy v claim height = .ok a :=
    ⟨fun ⟨a, _, entered⟩ => ⟨a, (castYields entered).1⟩, fun ⟨a, made⟩ => ⟨a, _, castMade made⟩⟩
  rw [made, attestationIff, and_iff_right_iff_imp]
  exact fun allowed => inv.fresh allowed.1 _

end Voting

end TokenBridge
