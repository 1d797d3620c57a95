import TokenBridge.Proofs.Observation.ExactlyOnce
import TokenBridge.Proofs.SortedMap.Listing
import TokenBridge.Proofs.Voting.Discipline
import Mathlib.Data.List.Nodup
/-!
Votes come in turn. A validator votes at one nonce after another without a gap, once at each, and what it has
voted for stays: attestations only gain votes, at the end.
-/
namespace TokenBridge

open TokenBridge.Action

variable {s t u : Store} {block : Block} {n : UInt64} {p : Word} {v : Account} {a : Attestation}
  {os : List Observation}

def Store.votesAt (s : Store) (nonce : UInt64) : List Account :=
  (s.attestations.entries.filter fun e => e.1.1 = nonce).flatMap fun e => e.2.votes

theorem Store.votersOf (found : s.attestations.get? (n, p) = some a) : s.voters n p = a.votes := by
  simp [voters, found]

theorem Store.memVoters : v ∈ s.voters n p ↔ ∃ a, s.attestations.get? (n, p) = some a ∧ v ∈ a.votes := by
  constructor
  · intro voted
    cases found : s.attestations.get? (n, p) with
    | none => simp [voters, found] at voted
    | some a => exact ⟨a, rfl, votersOf found ▸ voted⟩
  · rintro ⟨a, found, voted⟩
    rw [votersOf found]
    exact voted

theorem Store.memVotesAt : v ∈ s.votesAt n ↔ ∃ p, v ∈ s.voters n p := by
  simp only [votesAt, List.mem_flatMap, List.mem_filter, decide_eq_true_eq, memVoters]
  constructor
  · rintro ⟨⟨⟨_, p⟩, a⟩, ⟨found, rfl⟩, voted⟩
    exact ⟨p, a, SortedMap.getIff.2 found, voted⟩
  · rintro ⟨p, a, found, voted⟩
    exact ⟨((n, p), a), ⟨SortedMap.getIff.1 found, rfl⟩, voted⟩

theorem Disciplined.votesDistinct (inv : Disciplined s) (n : UInt64) : (s.votesAt n).Nodup := by
  refine List.nodup_flatMap.2 ⟨?_, ?_⟩
  · rintro ⟨⟨m, p⟩, a⟩ listed
    have found := SortedMap.getIff.2 (List.mem_filter.1 listed).1
    exact Store.votersOf found ▸ inv.distinct m p
  · refine ((SortedMap.entriesNodup _).filter _).pairwise_of_forall_ne ?_
    rintro ⟨⟨m, p⟩, a⟩ first ⟨⟨m', q⟩, b⟩ second apart
    obtain ⟨listed, atNonce⟩ := List.mem_filter.1 first
    obtain ⟨listed', atNonce'⟩ := List.mem_filter.1 second
    obtain rfl : m = n := of_decide_eq_true atNonce
    obtain rfl : m' = m := of_decide_eq_true atNonce'
    have found := SortedMap.getIff.2 listed
    have found' := SortedMap.getIff.2 listed'
    intro v voted voted'
    obtain rfl := inv.once m' p q v (Store.memVoters.2 ⟨a, found, voted⟩)
      (Store.memVoters.2 ⟨b, found', voted'⟩)
    rw [found] at found'
    cases found'
    exact apart rfl

structure InTurn (s : Store) : Prop where
  consecutive : ∀ v last, s.lastVoted.get? v = some last → ∃ first : UInt64,
    1 ≤ first.toNat ∧ first.toNat ≤ last.toNat ∧
      ∀ n, (∃ p, v ∈ s.voters n p) ↔ first.toNat ≤ n.toNat ∧ n.toNat ≤ last.toNat
  unvoted : ∀ v, s.lastVoted.get? v = none → ∀ n p, v ∉ s.voters n p

theorem InTurn.empty : InTurn .empty where
  consecutive _ _ found := nomatch found
  unvoted _ _ _ _ voted := nomatch voted

theorem InTurn.keep (inv : InTurn s) (voters : t.voters = s.voters)
    (lastVoted : t.lastVoted = s.lastVoted) : InTurn t where
  consecutive := by rw [voters, lastVoted]; exact inv.consecutive
  unvoted := by rw [voters, lastVoted]; exact inv.unvoted

namespace Voting

variable {policy : ConflictPolicy} {validator : Account} {claim : Claim} {height : UInt64}

theorem castVoted (h : Yields (cast policy validator claim height) s a t) :
    (∃ p, v ∈ t.voters n p) ↔
      (∃ p, v ∈ s.voters n p) ∨ (v = validator ∧ claim.nonce = n) := by
  simp [castMem h, exists_or]

theorem castInTurn (inv : InTurn s) (h : Yields (cast policy validator claim height) s a t) :
    InTurn t := by
  obtain ⟨made, after⟩ := castYields h
  have next := Counter.nextVal (attestationOk made).1
  have lastVoted (v : Account) : t.lastVoted.get? v =
      if validator = v then some claim.nonce else s.lastVoted.get? v := by
    rw [after]
    exact SortedMap.getInsert ..
  constructor
  case consecutive =>
    intro v last found
    rw [lastVoted] at found
    split at found
    · rename_i same
      subst same
      cases found
      cases before : s.lastVoted.get? validator with
      | none =>
        refine ⟨claim.nonce, by omega, Nat.le_refl _, fun n => ?_⟩
        rw [castVoted h]
        constructor
        · rintro (⟨p, old⟩ | ⟨_, rfl⟩)
          · exact absurd old (inv.unvoted _ before n p)
          · exact ⟨Nat.le_refl _, Nat.le_refl _⟩
        · rintro ⟨above, below⟩
          exact .inr ⟨rfl, UInt64.toNat_inj.1 (Nat.le_antisymm above below)⟩
      | some last =>
        simp only [lastNonce, before, Option.getD_some] at next
        obtain ⟨first, positive, ordered, voted⟩ := inv.consecutive _ _ before
        refine ⟨first, positive, by omega, fun n => ?_⟩
        rw [castVoted h, voted]
        constructor
        · rintro (old | ⟨_, rfl⟩)
          · omega
          · omega
        · rintro ⟨above, below⟩
          by_cases old : n.toNat ≤ last.toNat
          · exact .inl ⟨above, old⟩
          · exact .inr ⟨rfl, UInt64.toNat_inj.1 (by omega)⟩
    · rename_i apart
      obtain ⟨first, positive, ordered, voted⟩ := inv.consecutive v last found
      refine ⟨first, positive, ordered, fun n => ?_⟩
      rw [castVoted h, ← voted, or_iff_left]
      exact fun same => apart same.1.symm
  case unvoted =>
    intro v none n p voted
    rw [lastVoted] at none
    split at none
    · cases none
    · rename_i apart
      rcases (castMem h).1 voted with old | ⟨same, _⟩
      · exact inv.unvoted v none n p old
      · exact apart same.symm

end Voting

theorem Polling.inTurn (inv : InTurn s) (polling : Polling block s t) : InTurn t := by
  cases polling with
  | kept kept => exact inv.keep kept.voters kept.lastVoted
  | voted _ _ cast kept => exact (Voting.castInTurn inv cast).keep kept.voters kept.lastVoted
  | enrolled enrolled => exact inv.keep enrolled.polls.1 enrolled.polls.2

def Grown (s t : Store) : Prop :=
  ∀ n p a, s.attestations.get? (n, p) = some a → ∃ b, t.attestations.get? (n, p) = some b ∧
    b.claim = a.claim ∧ b.height = a.height ∧ a.votes <+: b.votes

theorem Grown.here : Grown s s := fun _ _ a found => ⟨a, found, rfl, rfl, List.prefix_rfl⟩

theorem Grown.trans (h : Grown s t) (h' : Grown t u) : Grown s u := by
  intro n p a found
  obtain ⟨b, found, claim, height, votes⟩ := h n p a found
  obtain ⟨c, found, claim', height', votes'⟩ := h' n p b found
  exact ⟨c, found, claim'.trans claim, height'.trans height, votes.trans votes'⟩

theorem VotesKept.grown (h : VotesKept s t) : Grown s t := fun n p a found =>
  ⟨a, by rw [h.attestations]; exact found, rfl, rfl, List.prefix_rfl⟩

def Attested (s : Store) : Prop :=
  ∀ n p a, s.attestations.get? (n, p) = some a →
    a.votes ≠ [] ∧ a.claim.nonce = n ∧ a.claim.fingerprint = p

theorem Attested.empty : Attested .empty := by
  intro n p a found
  cases found

theorem VotesKept.attested (h : VotesKept s t) (inv : Attested s) : Attested t := by
  unfold Attested
  rw [h.attestations]
  exact inv

theorem grownInsert {b : Attestation}
    (extended : ∀ a, s.attestations.get? (n, p) = some a →
      b.claim = a.claim ∧ b.height = a.height ∧ a.votes <+: b.votes)
    (after : t.attestations = s.attestations.insert (n, p) b) : Grown s t := by
  intro m q a found
  rw [after, SortedMap.getInsert]
  split
  · rename_i same
    cases same
    exact ⟨b, rfl, extended a found⟩
  · exact ⟨a, found, rfl, rfl, List.prefix_rfl⟩

theorem attestedInsert {b : Attestation} (inv : Attested s)
    (sound : b.votes ≠ [] ∧ b.claim.nonce = n ∧ b.claim.fingerprint = p)
    (after : t.attestations = s.attestations.insert (n, p) b) : Attested t := by
  intro m q a found
  rw [after, SortedMap.getInsert] at found
  split at found
  · rename_i same
    cases same
    cases found
    exact sound
  · exact inv m q a found

theorem Voted.attested (inv : Attested s) (h : Voted block s t) : Attested t ∧ Grown s t := by
  rcases h with rfl | ⟨_, validator, claim, a, _, cast⟩
  · exact ⟨inv, .here⟩
  · obtain ⟨made, rfl⟩ := Voting.castYields cast
    obtain ⟨_, ⟨b, found, _, _, rfl⟩ | ⟨missing, _, rfl⟩⟩ := Voting.attestationOk made
    · obtain ⟨_, atNonce, ofContent⟩ := inv _ _ b found
      have voted : b.votes ++ [validator] ≠ [] := List.append_ne_nil_of_right_ne_nil _ (List.cons_ne_nil _ _)
      refine ⟨attestedInsert inv ?_ rfl, grownInsert (fun a found' => ?_) rfl⟩
      · exact ⟨voted, atNonce, ofContent⟩
      cases found.symm.trans found'
      exact ⟨rfl, rfl, List.prefix_append ..⟩
    · refine ⟨attestedInsert inv ?_ rfl, grownInsert (fun a found => ?_) rfl⟩
      · exact ⟨List.cons_ne_nil _ _, rfl, rfl⟩
      · cases missing.symm.trans found

theorem Observing.passAttested {view : StakeView} (inv : Attested s)
    (pass : Pass view block s os t) : Attested t ∧ Grown s t := by
  induction pass with
  | rest => exact ⟨inv, .here⟩
  | @observe s u _ nonce fingerprint a _ _ _ _ won effect _ ih =>
    obtain ⟨here, _, _⟩ := winnerFound won
    have kept := (takeEffectMoves effect).votes
    have sound := inv _ _ _ here
    have marked : Attested (mark nonce fingerprint a s) :=
      attestedInsert (b := { a with observed := true }) inv sound rfl
    have grown : Grown s (mark nonce fingerprint a s) := by
      refine grownInsert (fun b found => ?_) rfl
      cases here.symm.trans found
      exact ⟨rfl, rfl, List.prefix_rfl⟩
    obtain ⟨attested, further⟩ := ih (kept.attested marked)
    exact ⟨attested, (grown.trans kept.grown).trans further⟩

theorem Observes.attested (inv : Attested s) (h : Observes block s os t) : Attested t ∧ Grown s t := by
  obtain ⟨u, w, voted, pass, kept⟩ := h
  obtain ⟨afterVote, grown⟩ := voted.attested inv
  obtain ⟨passed, further⟩ := Observing.passAttested afterVote pass
  exact ⟨kept.attested passed, (grown.trans further).trans kept.grown⟩

namespace Journal

variable {j k : Journal}

theorem Run.inTurn (run : Run j) : InTurn j.store := by
  refine Run.keeps ?setUp ?deed run
  case setUp =>
    intro block m r t yields
    have kept := Contract.setUpPoll yields
    exact InTurn.empty.keep kept.voters kept.lastVoted
  case deed =>
    intro j block order r t _ inv later yields
    exact (Chain.laterPolling later yields).inTurn inv

theorem Run.attested (run : Run j) : Attested j.store := by
  refine Run.keeps ?setUp ?deed run
  case setUp =>
    intro block m r t yields
    have observes : Observes block .empty r.observations t := Contract.setUpObserves yields
    exact (observes.attested .empty).1
  case deed =>
    intro j block order r t _ inv later yields
    exact ((Chain.laterMovement later yields).observes.attested inv).1

theorem Follows.grown (h : Follows j k) (run : Run j) : Grown j.store k.store := by
  refine Follows.keeps h run .here ?_
  intro i block order r t past grown later yields
  exact grown.trans ((Chain.laterMovement later yields).observes.attested past.attested).2

theorem Run.votesInTurn (run : Run j) :
    (∀ n, (j.store.votesAt n).Nodup) ∧
    (∀ v last, j.store.lastVoted.get? v = some last → ∃ first : UInt64, 1 ≤ first ∧ first ≤ last ∧
      ∀ n, v ∈ j.store.votesAt n ↔ first ≤ n ∧ n ≤ last) ∧
    (∀ v, j.store.lastVoted.get? v = none → ∀ n, v ∉ j.store.votesAt n) ∧
    (∀ n, ∀ v ∈ j.store.votesAt n, j.store.Bound v) ∧
    Attested j.store ∧ ∀ k, Follows j k → Grown j.store k.store := by
  have disciplined := run.disciplined
  have inTurn := run.inTurn
  refine ⟨disciplined.votesDistinct, fun v last found => ?_, fun v none n voted => ?_,
    fun n v voted => ?_, run.attested, fun k follows => follows.grown run⟩
  · obtain ⟨first, positive, ordered, voted⟩ := inTurn.consecutive v last found
    refine ⟨first, UInt64.le_iff_toNat_le.2 positive, UInt64.le_iff_toNat_le.2 ordered, fun n => ?_⟩
    rw [Store.memVotesAt, voted, UInt64.le_iff_toNat_le, UInt64.le_iff_toNat_le]
  · obtain ⟨p, voted⟩ := Store.memVotesAt.1 voted
    exact inTurn.unvoted v none n p voted
  · obtain ⟨p, voted⟩ := Store.memVotesAt.1 voted
    exact disciplined.bound n p v voted

/-- Of 100 stake, alpha has 40, beta 30 and gamma 30. Gamma is bound only when two nonces are observed, and votes
for the second of them; at the third, beta stands alone with another content. -/
def joined : Journal :=
  (start.deliver ⟨100, 1⟩ (.setUp
    ⟨"admin", "bridge", ["alpha", "beta", "gamma"], [⟨"alpha", 40⟩, ⟨"beta", 30⟩, ⟨"gamma", 30⟩],
      none, none, none, none, none, none, none⟩)).deliverAll
    [(⟨101, 2⟩, binds "alpha" "first" "0x0000000000000000000000000000000000000001"),
      (⟨102, 3⟩, binds "beta" "second" "0x0000000000000000000000000000000000000002"),
      (⟨103, 4⟩, votes "first" 1 ""), (⟨104, 5⟩, votes "second" 1 ""),
      (⟨105, 6⟩, votes "first" 2 ""), (⟨106, 7⟩, votes "second" 2 ""),
      (⟨107, 8⟩, binds "gamma" "third" "0x0000000000000000000000000000000000000003"),
      (⟨108, 9⟩, votes "second" 3 "other"),
      (⟨109, 10⟩, .execute ⟨⟨"admin"⟩, []⟩
        (.updateConfig ⟨none, none, none, none, some .trackConcurrent, none⟩)),
      (⟨110, 11⟩, votes "first" 3 ""), (⟨111, 12⟩, votes "third" 2 ""), (⟨112, 13⟩, votes "third" 3 "")]
where
  binds (validator orchestrator signer : String) : Order :=
    .execute ⟨⟨validator⟩, []⟩ (.setOrchestrator orchestrator signer)
  votes (orchestrator : String) (nonce : UInt64) (receiver : String) : Order :=
    .execute ⟨⟨orchestrator⟩, []⟩
      (.submitClaim ⟨nonce, 50, .deposit .zero (.small 1) .zero receiver⟩)

theorem joinedRun : Run joined := Run.deliverAll (.setUp (by decide)) (by decide)

theorem joinedStore :
    joined.store.lastVoted.get? ⟨"gamma"⟩ = some 3 ∧ ⟨"gamma"⟩ ∉ joined.store.votesAt 1 ∧
      ⟨"gamma"⟩ ∈ joined.store.votesAt 2 ∧
      joined.store.votesAt 3 = [⟨"beta"⟩, ⟨"alpha"⟩, ⟨"gamma"⟩] := by
  decide +kernel

theorem joinedLate :
    Run joined ∧ joined.store.lastVoted.get? ⟨"gamma"⟩ = some 3 ∧
      (∀ n, ⟨"gamma"⟩ ∈ joined.store.votesAt n ↔ 2 ≤ n ∧ n ≤ 3) ∧
      (joined.store.votesAt 3).Nodup ∧ joined.store.votesAt 3 = [⟨"beta"⟩, ⟨"alpha"⟩, ⟨"gamma"⟩] := by
  obtain ⟨last, notFirst, second, third⟩ := joinedStore
  obtain ⟨distinct, consecutive, _⟩ := Run.votesInTurn joinedRun
  obtain ⟨first, positive, _, voted⟩ := consecutive _ _ last
  have starts : first = 2 := by
    have below := ((voted 2).1 second).1
    have above : ¬ first ≤ 1 := fun early => notFirst ((voted 1).2 ⟨early, by decide⟩)
    rw [UInt64.le_iff_toNat_le] at below above
    exact UInt64.toNat_inj.1 (Nat.le_antisymm below (Nat.lt_of_not_le above))
  exact ⟨joinedRun, last, starts ▸ voted, distinct 3, third⟩

end Journal

end TokenBridge
