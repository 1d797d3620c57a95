import TokenBridge.Proofs.Voting.Poll
/-!
The discipline of votes. Every vote is that of a bound validator, and no validator votes twice at a nonce,
whatever the content: a vote goes to the nonce after the last one, so all earlier votes stand below it.
-/
namespace TokenBridge

open TokenBridge.Action

variable {s t u : Store} {block : Block}

structure Disciplined (s : Store) : Prop where
  led : ∀ o v, s.validatorOf.get? o = some v → s.Bound v
  bound : ∀ n p, ∀ v ∈ s.voters n p, s.Bound v
  distinct : ∀ n p, (s.voters n p).Nodup
  once : ∀ n p q, ∀ v ∈ s.voters n p, v ∈ s.voters n q → p = q
  upToLast : ∀ n p, ∀ v ∈ s.voters n p,
    ∃ last, s.lastVoted.get? v = some last ∧ n.toNat ≤ last.toNat

theorem PollKept.bound {v : Account} (h : PollKept s t) : t.Bound v ↔ s.Bound v := by
  constructor
  · rintro ⟨leads, signs⟩
    rw [h.orchestratorOf, h.validatorOf] at leads
    rw [h.signerOf, h.validatorOfSigner] at signs
    exact ⟨leads, signs⟩
  · rintro ⟨leads, signs⟩
    rw [← h.orchestratorOf, ← h.validatorOf] at leads
    rw [← h.signerOf, ← h.validatorOfSigner] at signs
    exact ⟨leads, signs⟩

theorem PollKept.disciplined (h : PollKept s t) (inv : Disciplined s) : Disciplined t where
  led o v found := by
    rw [h.validatorOf] at found
    exact h.bound.2 (inv.led o v found)
  bound n p v voted := by
    rw [h.voters] at voted
    exact h.bound.2 (inv.bound n p v voted)
  distinct := by rw [h.voters]; exact inv.distinct
  once := by rw [h.voters]; exact inv.once
  upToLast := by rw [h.voters, h.lastVoted]; exact inv.upToLast

theorem Disciplined.empty : Disciplined .empty where
  led _ _ found := nomatch found
  bound _ _ _ voted := nomatch voted
  distinct _ _ := List.nodup_nil
  once _ _ _ _ voted := nomatch voted
  upToLast _ _ _ voted := nomatch voted

theorem Disciplined.fresh {n : UInt64} {v : Account} (inv : Disciplined s)
    (next : n.toNat = (Voting.lastNonce s v).toNat + 1) (p : Word) : v ∉ s.voters n p := by
  intro voted
  obtain ⟨last, found, bound⟩ := inv.upToLast n p v voted
  simp only [Voting.lastNonce, found, Option.getD_some] at next
  omega

namespace Voting

variable {policy : ConflictPolicy} {validator : Account} {claim : Claim} {height : UInt64}
  {a : Attestation}

theorem castVoters (h : Yields (cast policy validator claim height) s a t) (n : UInt64) (p : Word) :
    t.voters n p =
      if (claim.nonce, claim.fingerprint) = (n, p) then s.voters n p ++ [validator]
      else s.voters n p := by
  obtain ⟨made, rfl⟩ := castYields h
  simp only [Store.voters, SortedMap.getInsert]
  split
  · rename_i here
    cases here
    obtain ⟨_, ⟨b, found, _, _, rfl⟩ | ⟨missing, _, rfl⟩⟩ := attestationOk made
    · simp [found]
    · simp [missing]
  · rfl

theorem castMem {n : UInt64} {p : Word} {v : Account}
    (h : Yields (cast policy validator claim height) s a t) :
    v ∈ t.voters n p ↔
      v ∈ s.voters n p ∨ (v = validator ∧ claim.nonce = n ∧ claim.fingerprint = p) := by
  rw [castVoters h]
  split
  · rename_i here
    cases here
    simp
  · rename_i apart
    refine ⟨.inl, fun voted => voted.resolve_right ?_⟩
    rintro ⟨_, rfl, rfl⟩
    exact apart rfl

theorem castClaims {k : UInt64 × Word} {b : Attestation}
    (h : Yields (cast policy validator claim height) s a t) (found : t.attestations.get? k = some b) :
    b.claim = claim ∨ ∃ d, s.attestations.get? k = some d ∧ d.claim = b.claim := by
  obtain ⟨made, rfl⟩ := castYields h
  rw [SortedMap.getInsert] at found
  split at found
  · rename_i here
    cases found
    obtain ⟨_, ⟨d, old, _, _, rfl⟩ | ⟨_, _, rfl⟩⟩ := attestationOk made
    · exact .inr ⟨d, here ▸ old, rfl⟩
    · exact .inl rfl
  · exact .inr ⟨b, found, rfl⟩

theorem castFresh (inv : Disciplined s) (h : Yields (cast policy validator claim height) s a t)
    (p : Word) : validator ∉ s.voters claim.nonce p :=
  inv.fresh (Counter.nextVal (attestationOk (castYields h).1).1) p

theorem castLast (h : Yields (cast policy validator claim height) s a t) {v : Account}
    {last : UInt64} (found : s.lastVoted.get? v = some last) :
    ∃ later, t.lastVoted.get? v = some later ∧ last.toNat ≤ later.toNat := by
  obtain ⟨made, rfl⟩ := castYields h
  have next := Counter.nextVal (attestationOk made).1
  simp only [SortedMap.getInsert]
  split
  · rename_i same
    subst same
    simp only [lastNonce, found, Option.getD_some] at next
    exact ⟨claim.nonce, rfl, by omega⟩
  · exact ⟨last, found, Nat.le_refl _⟩

theorem castDisciplined (inv : Disciplined s) (bound : s.Bound validator)
    (h : Yields (cast policy validator claim height) s a t) : Disciplined t := by
  have boundKept : ∀ v, s.Bound v → t.Bound v := by
    obtain ⟨_, rfl⟩ := castYields h
    exact fun v here => ⟨here.orchestrator, here.signer⟩
  have ledKept : t.validatorOf = s.validatorOf := by
    obtain ⟨_, rfl⟩ := castYields h
    rfl
  constructor
  case led =>
    intro o v found
    rw [ledKept] at found
    exact boundKept v (inv.led o v found)
  case bound =>
    intro n p v voted
    rcases (castMem h).1 voted with old | ⟨rfl, _, _⟩
    · exact boundKept v (inv.bound n p v old)
    · exact boundKept v bound
  case distinct =>
    intro n p
    rw [castVoters h]
    split
    · rename_i here
      cases here
      refine List.nodup_append.2 ⟨inv.distinct _ _, List.pairwise_singleton .., ?_⟩
      intro v old w new same
      rw [same, List.mem_singleton.1 new] at old
      exact castFresh inv h _ old
    · exact inv.distinct n p
  case once =>
    intro n p q v atP atQ
    rcases (castMem h).1 atP with oldP | ⟨rfl, rfl, rfl⟩
    · rcases (castMem h).1 atQ with oldQ | ⟨rfl, rfl, rfl⟩
      · exact inv.once n p q v oldP oldQ
      · exact absurd oldP (castFresh inv h p)
    · rcases (castMem h).1 atQ with oldQ | ⟨_, _, same⟩
      · exact absurd oldQ (castFresh inv h q)
      · exact same
  case upToLast =>
    intro n p v voted
    rcases (castMem h).1 voted with old | ⟨rfl, rfl, rfl⟩
    · obtain ⟨last, found, reached⟩ := inv.upToLast n p v old
      obtain ⟨later, found', further⟩ := castLast h found
      exact ⟨later, found', Nat.le_trans reached further⟩
    · obtain ⟨_, rfl⟩ := castYields h
      exact ⟨claim.nonce, SortedMap.getInsertSelf .., Nat.le_refl _⟩

end Voting

namespace Enrolled

theorem polls (h : Enrolled s t) : t.voters = s.voters ∧ t.lastVoted = s.lastVoted := by
  obtain ⟨_, _, _, rfl⟩ := h
  exact ⟨rfl, rfl⟩

theorem keepsBound (h : Enrolled s t) {v : Account} (bound : s.Bound v) : t.Bound v := by
  obtain ⟨unsigned, unled, unused, rfl⟩ := h
  obtain ⟨⟨o, leads, led⟩, a, signs, signed⟩ := bound
  refine ⟨⟨o, ?_, ?_⟩, a, ?_, ?_⟩
  · refine (SortedMap.getInsertOther _ _ fun same => ?_).trans leads
    rw [same, signs] at unsigned
    cases unsigned
  · refine (SortedMap.getInsertOther _ _ fun same => ?_).trans led
    rw [same, led] at unled
    cases unled
  · refine (SortedMap.getInsertOther _ _ fun same => ?_).trans signs
    rw [same, signs] at unsigned
    cases unsigned
  · refine (SortedMap.getInsertOther _ _ fun same => ?_).trans signed
    rw [same, signed] at unused
    cases unused

theorem ledBound (h : Enrolled s t) {o v : Account} (led : t.validatorOf.get? o = some v) :
    s.validatorOf.get? o = some v ∨ t.Bound v := by
  obtain ⟨_, _, _, rfl⟩ := h
  rw [SortedMap.getInsert] at led
  split at led
  · cases led
    exact .inr ⟨⟨_, SortedMap.getInsertSelf .., SortedMap.getInsertSelf ..⟩, _,
      SortedMap.getInsertSelf .., SortedMap.getInsertSelf ..⟩
  · exact .inl led

theorem disciplined (inv : Disciplined s) (h : Enrolled s t) : Disciplined t := by
  obtain ⟨voters, lastVoted⟩ := h.polls
  constructor
  case led =>
    intro o v found
    rcases h.ledBound found with old | bound
    · exact h.keepsBound (inv.led o v old)
    · exact bound
  case bound =>
    intro n p v voted
    rw [voters] at voted
    exact h.keepsBound (inv.bound n p v voted)
  case distinct =>
    rw [voters]
    exact inv.distinct
  case once =>
    rw [voters]
    exact inv.once
  case upToLast =>
    rw [voters, lastVoted]
    exact inv.upToLast

end Enrolled

theorem Polling.disciplined (inv : Disciplined s) (polling : Polling block s t) : Disciplined t := by
  cases polling with
  | kept kept => exact kept.disciplined inv
  | voted bound _ cast kept =>
    exact kept.disciplined (Voting.castDisciplined inv (inv.led _ _ bound) cast)
  | enrolled enrolled => exact enrolled.disciplined inv

theorem Journal.Run.disciplined {j : Journal} (run : j.Run) : Disciplined j.store := by
  refine Run.keeps ?setUp ?deed run
  case setUp =>
    intro block m r t yields
    exact (Contract.setUpPoll yields).disciplined .empty
  case deed =>
    intro j block order r t _ inv later yields
    exact (Chain.laterPolling later yields).disciplined inv

end TokenBridge
