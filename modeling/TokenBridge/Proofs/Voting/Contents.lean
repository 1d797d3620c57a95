import TokenBridge.Proofs.Encoding.Fingerprint
import TokenBridge.Proofs.Voting.Ballot
/-!
What is attested at the nonces. Every validator votes at one nonce after another, and one that joins late starts at the
last observed nonce, so no nonce is left out. While contents do not compete, a nonce has the content of the first vote
at it.
-/
namespace TokenBridge

open TokenBridge.Action

variable {s t u : Store} {block : Block} {r : Response} {order : Order} {os later : List Observation} {n : UInt64}
  {p : Word} {last : UInt64}

def Store.content? (s : Store) (nonce : UInt64) (fingerprint : Word) : Option Claim :=
  (s.attestations.get? (nonce, fingerprint)).map Attestation.claim

theorem Store.attestedAtIff : s.AttestedAt n ↔ ∃ p c, s.content? n p = some c := by
  simp only [AttestedAt, content?, Option.map_eq_some_iff]
  constructor
  · rintro ⟨p, a, found⟩
    exact ⟨p, a.claim, a, found, rfl⟩
  · rintro ⟨p, _, a, found, _⟩
    exact ⟨p, a, found⟩

theorem VotesKept.contents (h : VotesKept s t) : t.content? = s.content? := by
  unfold Store.content?
  rw [h.attestations]

theorem Observing.passContents {view : StakeView} (pass : Pass view block s os t) : t.content? = s.content? := by
  induction pass with
  | rest => rfl
  | @observe s u t nonce fingerprint a e _ _ _ won effect _ ih =>
    obtain ⟨here, _, _⟩ := winnerFound won
    rw [ih, (takeEffectMoves effect).votes.contents]
    funext n p
    simp only [Store.content?, mark, SortedMap.getInsert]
    split
    · rename_i same
      rw [← same, here]
      rfl
    · rfl

def Store.AttestedUpTo (s : Store) (last : UInt64) : Prop :=
  ∀ n, s.AttestedAt n ↔ 1 ≤ n.toNat ∧ n.toNat ≤ last.toNat

theorem Store.attestedUpToSame (same : t.content? = s.content?) : t.AttestedUpTo last ↔ s.AttestedUpTo last := by
  unfold AttestedUpTo
  simp only [attestedAtIff, same]

theorem Store.AttestedUpTo.empty : Store.empty.AttestedUpTo 0 := fun n =>
  iff_of_false (fun ⟨_, _, found⟩ => nomatch found) fun bounds =>
    absurd (Nat.le_trans bounds.1 bounds.2) (by decide)

theorem Store.AttestedUpTo.cursor (upTo : s.AttestedUpTo last) (inv : InOrder s os) :
    s.observedNonce.toNat ≤ last.toNat := by
  by_cases first : 1 ≤ s.observedNonce.toNat
  · obtain ⟨p, c, observed⟩ := inv.decided s.observedNonce first (Nat.le_refl _)
    obtain ⟨a, found, _⟩ := Store.observedIff.1 observed
    exact ((upTo s.observedNonce).1 ⟨p, a, found⟩).2
  · omega

namespace Voting

variable {policy : ConflictPolicy} {v : Account} {claim : Claim} {height : UInt64} {a : Attestation}

theorem castContents (h : Yields (cast policy v claim height) s a t) (n : UInt64) (p : Word) :
    t.content? n p =
      if (claim.nonce, claim.fingerprint) = (n, p) then some ((s.content? n p).getD claim) else s.content? n p := by
  obtain ⟨made, rfl⟩ := castYields h
  simp only [Store.content?, SortedMap.getInsert]
  split
  · rename_i here
    cases here
    obtain ⟨_, ⟨b, found, _, _, rfl⟩ | ⟨missing, _, rfl⟩⟩ := attestationOk made
    · simp [found]
    · simp [missing]
  · rfl

theorem castAttested (h : Yields (cast policy v claim height) s a t) :
    t.AttestedAt n ↔ s.AttestedAt n ∨ claim.nonce = n := by
  simp only [Store.attestedAtIff, castContents h]
  constructor
  · rintro ⟨p, c, found⟩
    split at found
    · rename_i here
      exact .inr (congrArg Prod.fst here)
    · exact .inl ⟨p, c, found⟩
  · rintro (⟨p, c, found⟩ | rfl)
    · refine ⟨p, c, ?_⟩
      rw [found]
      split
      · rfl
      · rfl
    · exact ⟨claim.fingerprint, _, if_pos rfl⟩

theorem castUncontested (h : Yields (cast .reject v claim height) s a t) :
    (s.AttestedAt claim.nonce ∧ t.content? = s.content?) ∨
    (¬ s.AttestedAt claim.nonce ∧
      ∀ p c, t.content? claim.nonce p = some c ↔ p = claim.fingerprint ∧ c = claim) := by
  have standing {b : Attestation} (found : s.attestations.get? (claim.nonce, claim.fingerprint) = some b) :
      s.AttestedAt claim.nonce ∧ t.content? = s.content? := by
    refine ⟨⟨_, b, found⟩, ?_⟩
    funext n p
    rw [castContents h, ite_eq_right_iff]
    rintro ⟨⟩
    rw [Store.content?, found]
    rfl
  obtain ⟨_, _, allowed⟩ := attestationIff.1 ⟨a, (castYields h).1⟩
  by_cases past : claim.nonce.toNat ≤ s.observedNonce.toNat
  · obtain ⟨b, found, _⟩ := (openPast past).1 allowed
    exact .inl (standing found)
  · rcases (openAhead (Nat.lt_of_not_le past)).1 allowed with competing | fresh | ⟨b, found⟩
    · cases competing
    · refine .inr ⟨fresh, fun p c => ?_⟩
      have none : ∀ p, s.content? claim.nonce p = none := fun p =>
        Option.eq_none_iff_forall_ne_some.2 fun d found => fresh (Store.attestedAtIff.2 ⟨p, d, found⟩)
      rw [castContents h, none]
      simp [eq_comm]
    · exact .inl (standing found)

theorem nextAttested (inTurn : InTurn s) (inv : InOrder s os) (upTo : s.AttestedUpTo last) (v : Account) :
    (lastNonce s v).toNat ≤ last.toNat := by
  cases before : s.lastVoted.get? v with
  | none =>
    have cursor := upTo.cursor inv
    have behind := Counter.cappedSubVal s.observedNonce 1
    rw [lastNonce, before, Option.getD_none]
    omega
  | some m =>
    obtain ⟨first, _, ordered, voted⟩ := inTurn.consecutive v m before
    obtain ⟨p, here⟩ := (voted m).2 ⟨ordered, Nat.le_refl _⟩
    obtain ⟨a, found, _⟩ := Store.memVoters.1 here
    rw [lastNonce, before, Option.getD_some]
    exact ((upTo m).1 ⟨p, a, found⟩).2

theorem castAttestedUpTo (inTurn : InTurn s) (inv : InOrder s os) (upTo : s.AttestedUpTo last)
    (h : Yields (cast policy v claim height) s a t) : ∃ last, t.AttestedUpTo last := by
  have next := Counter.nextVal (attestationOk (castYields h).1).1
  have near := nextAttested inTurn inv upTo v
  by_cases old : claim.nonce.toNat ≤ last.toNat
  · refine ⟨last, fun n => ?_⟩
    rw [castAttested h, upTo n, or_iff_left_iff_imp]
    rintro rfl
    omega
  · refine ⟨claim.nonce, fun n => ?_⟩
    rw [castAttested h, upTo n, ← UInt64.toNat_inj]
    omega

end Voting

theorem Observes.attestedUpTo (inTurn : InTurn s) (inv : InOrder s os) (upTo : ∃ last, s.AttestedUpTo last)
    (h : Observes block s later t) : ∃ last, t.AttestedUpTo last := by
  obtain ⟨u, w, voted, pass, kept⟩ := h
  have same : t.content? = u.content? := kept.contents.trans (Observing.passContents pass)
  simp only [Store.attestedUpToSame same]
  rcases voted with rfl | ⟨_, _, claim, _, _, cast⟩
  · exact upTo
  · obtain ⟨last, upTo⟩ := upTo
    exact Voting.castAttestedUpTo inTurn inv upTo cast

inductive Reporting (block : Block) (s : Store) (order : Order) (t : Store) : Prop where
  | kept (unvoting : order.claim? = none) (kept : t.content? = s.content?)
  | voted {c : Config} {v : Account} {claim : Claim} {a : Attestation} {u : Store} (submits : order.claim? = some claim)
      (found : s.config = some c) (cast : Yields (Voting.cast c.conflictPolicy v claim block.height) s a u)
      (kept : t.content? = u.content?)

theorem Contract.executeReporting {caller : Caller} {m : Message}
    (h : Yields (Contract.execute block caller m) s r t) : Reporting block s (.execute caller m) t := by
  cases m with
  | submitClaim claim =>
    obtain ⟨_, _, _, _, _, _, _, found, cast, pass, _⟩ := Observing.submitYields h
    exact .voted rfl found cast (Observing.passContents pass)
  | processAttestations =>
    obtain ⟨_, pass, _⟩ := Observing.processYields h
    exact .kept rfl (Observing.passContents pass)
  | endBlock =>
    obtain ⟨_, _, _, _, pass, returned, stored, _⟩ := Housekeeping.endBlockYields h
    have settled := (Batching.dissolvesMove returned).votes.trans (SignerSet.storeDriftedMoves stored).office.votes
    exact .kept rfl (settled.contents.trans (Observing.passContents pass))
  | updatePowers reports =>
    obtain ⟨_, _, _, rfl, _⟩ := Directory.updatePowersYields h
    exact .kept rfl (Directory.reportMoves reports s).votes.contents
  | sendToEth | receive | cancelTransfer | requestBatch | registerToken =>
    obtain ⟨_, _, _, _, _, _, _, _, _, rfl⟩ := Contract.escrowMoves rfl h
    exact .kept rfl rfl
  | setOrchestrator | addStaticValidator | requestSet | confirmSet | confirmBatch | updateConfig | setMinimumFee
  | pause | unpause | proposeAdmin | acceptAdmin | cancelProposal =>
    have moved := (Contract.officeMoves rfl h).1.elim RecordsMoved.office Enrolled.office
    exact .kept rfl moved.votes.contents

theorem Contract.setUpContents {m : Setup} (h : Yields (Contract.setUp m) .empty r t) :
    t.content? = Store.empty.content? := by
  obtain ⟨_, _, rfl, _, _⟩ := Contract.setUpYields h
  obtain ⟨_, _, same⟩ := Directory.reportMoves m.stakes _
  rw [same]
  rfl

theorem Chain.laterReporting (later : order.setsUp = false) (h : Yields (Chain.action block order) s r t) :
    Reporting block s order t := by
  cases order with
  | setUp => cases later
  | execute => exact Contract.executeReporting h
  | migrate =>
    obtain ⟨_, rfl⟩ := yieldsPure.1 h
    exact .kept rfl rfl

namespace Journal

variable {j : Journal} {d : Deed}

def firstClaim? (j : Journal) (nonce : UInt64) : Option Claim :=
  j.deeds.findSome? fun d => d.order.claim?.filter fun c => c.nonce = nonce

def Rejecting (j : Journal) : Prop := ∀ d ∈ j.deeds, ∀ c ∈ d.after.config, c.conflictPolicy = .reject

instance (j : Journal) : Decidable j.Rejecting := inferInstanceAs (Decidable (∀ d ∈ j.deeds, _))

theorem firstClaimConcat : firstClaim? ⟨j.deeds ++ [d], t⟩ n =
    (j.firstClaim? n).or (d.order.claim?.filter fun c => c.nonce = n) := by
  simp [firstClaim?, List.findSome?_append]

def FirstStands (j : Journal) : Prop := ∀ n c, j.firstClaim? n = some c ↔ ∃ p, j.store.content? n p = some c

theorem FirstStands.report (inv : j.FirstStands) (rejects : ∀ c ∈ j.store.config, c.conflictPolicy = .reject)
    (reporting : Reporting block j.store order t) :
    FirstStands ⟨j.deeds ++ [⟨j.store, block, order, r, t⟩], t⟩ := by
  intro n c
  rw [firstClaimConcat]
  cases reporting with
  | kept unvoting kept =>
    rw [kept, unvoting, ← inv]
    simp
  | @voted config v claim a u submits found cast kept =>
    rw [rejects config found] at cast
    dsimp only
    rw [submits, kept]
    by_cases here : claim.nonce = n
    · subst here
      rcases Voting.castUncontested cast with ⟨standing, same⟩ | ⟨fresh, only⟩
      · obtain ⟨p, d, standing⟩ := Store.attestedAtIff.1 standing
        have first := (inv claim.nonce d).2 ⟨p, standing⟩
        rw [same, ← inv, first, Option.some_or]
      · have unvoted : j.firstClaim? claim.nonce = none :=
          Option.eq_none_iff_forall_ne_some.2 fun d first =>
            fresh (Store.attestedAtIff.2 (((inv _ d).1 first).imp fun p found => ⟨d, found⟩))
        have first : (some claim).filter (fun c => c.nonce = claim.nonce) = some claim := by simp
        rw [unvoted, Option.none_or, first]
        simp only [only, exists_eq_left, Option.some.injEq, eq_comm]
    · have silent : (some claim).filter (fun c => c.nonce = n) = none := by simp [here]
      have other : ∀ p, u.content? n p = j.store.content? n p := fun p => by
        rw [Voting.castContents cast, if_neg fun same => here (congrArg Prod.fst same)]
      rw [silent, Option.or_none, inv n c]
      exact exists_congr fun p => by rw [other p]

theorem Run.attestedUpTo (run : Run j) : ∃ last, j.store.AttestedUpTo last := by
  refine Run.keeps ?setUp ?deed run
  case setUp =>
    intro block m r t yields
    exact ⟨0, (Store.attestedUpToSame (Contract.setUpContents yields)).2 .empty⟩
  case deed =>
    intro j block order r t past inv later yields
    exact (Chain.laterMovement later yields).observes.attestedUpTo past.inTurn past.inOrder inv

theorem Run.firstStands (run : Run j) (rejecting : j.Rejecting) : j.FirstStands := by
  suffices both : j.Rejecting → (∀ c ∈ j.store.config, c.conflictPolicy = .reject) ∧ j.FirstStands from
    (both rejecting).2
  refine Run.keeps ?setUp ?deed run
  case setUp =>
    intro block m r t yields rejecting
    refine ⟨rejecting _ (List.mem_singleton_self _), fun n c => ?_⟩
    rw [Contract.setUpContents yields]
    exact iff_of_false nofun fun ⟨_, found⟩ => nomatch found
  case deed =>
    intro j block order r t _ inv later yields rejecting
    obtain ⟨before, after⟩ := List.forall_mem_append.1 rejecting
    obtain ⟨rejects, first⟩ := inv before
    exact ⟨after _ (List.mem_singleton_self _), first.report rejects (Chain.laterReporting later yields)⟩

theorem Run.attestedInTurn (run : Run j) :
    (∃ last : UInt64, j.store.observedNonce ≤ last ∧ ∀ n, j.store.AttestedAt n ↔ 1 ≤ n ∧ n ≤ last) ∧
    (j.Rejecting →
      (∀ n, j.store.AttestedAt n → ∃! p, ∃ a, j.store.attestations.get? (n, p) = some a) ∧
      ∀ n p c, j.store.observed? n p = some c → j.firstClaim? n = some c) := by
  refine ⟨?_, fun rejecting => ?_⟩
  · obtain ⟨last, upTo⟩ := run.attestedUpTo
    refine ⟨last, UInt64.le_iff_toNat_le.2 (upTo.cursor run.inOrder), fun n => ?_⟩
    rw [upTo n, UInt64.le_iff_toNat_le, UInt64.le_iff_toNat_le]
    rfl
  · have stands := run.firstStands rejecting
    have first {n : UInt64} {p : Word} {a : Attestation} (found : j.store.attestations.get? (n, p) = some a) :
        j.firstClaim? n = some a.claim :=
      (stands n a.claim).2 ⟨p, by rw [Store.content?, found]; rfl⟩
    refine ⟨fun n ⟨p, a, found⟩ => ⟨p, ⟨a, found⟩, fun q ⟨b, found'⟩ => ?_⟩, fun n p c observed => ?_⟩
    · obtain ⟨_, _, ofContent⟩ := run.attested n p a found
      obtain ⟨_, _, ofContent'⟩ := run.attested n q b found'
      have same := Option.some.inj ((first found').symm.trans (first found))
      rw [← ofContent, ← ofContent', same]
    · obtain ⟨a, found, _, rfl⟩ := Store.observedIff.1 observed
      exact first found

def contested : Journal :=
  elected.deliverAll
    [(⟨105, 6⟩, votes "first" 1), (⟨106, 7⟩, votes "second" 2), (⟨107, 8⟩, votes "second" 1)]
where
  votes (orchestrator : String) (scopeNonce : UInt64) : Order :=
    .execute ⟨⟨orchestrator⟩, []⟩ (.submitClaim ⟨2, 60, .callExecuted ⟨[]⟩ scopeNonce⟩)

theorem contestedRun : Run contested := electedRun.deliverAll (by decide)

theorem contestedInTurn :
    Run contested ∧ contested.Rejecting ∧ contested.deeds.length = elected.deeds.length + 2 ∧
      (∀ n, contested.store.AttestedAt n ↔ 1 ≤ n ∧ n ≤ 2) ∧
      (∃! p, ∃ a, contested.store.attestations.get? (2, p) = some a) ∧
      contested.firstClaim? 2 = some ⟨2, 60, .callExecuted ⟨[]⟩ 1⟩ := by
  obtain ⟨rejecting, two, second, third⟩ : contested.Rejecting ∧
      contested.deeds.length = elected.deeds.length + 2 ∧
      (∃ c ∈ contested.store.observed? 2 (Claim.fingerprint ⟨2, 60, .callExecuted ⟨[]⟩ 1⟩),
        c = ⟨2, 60, .callExecuted ⟨[]⟩ 1⟩) ∧ Voting.anyAt contested.store 3 = false := by
    decide +kernel
  obtain ⟨⟨last, _, upTo⟩, contents⟩ := Run.attestedInTurn contestedRun
  obtain ⟨alone, first⟩ := contents rejecting
  obtain ⟨_, observed, rfl⟩ := second
  obtain ⟨a, found, _⟩ := Store.observedIff.1 observed
  have attested : contested.store.AttestedAt 2 := ⟨_, a, found⟩
  have ends : last = 2 := by
    have least := ((upTo 2).1 attested).2
    have most : ¬ 3 ≤ last := fun more => by
      have attested := Voting.anyAtIff.2 ((upTo 3).2 ⟨by decide, more⟩)
      rw [third] at attested
      cases attested
    rw [UInt64.le_iff_toNat_le] at least most
    exact UInt64.toNat_inj.1 (Nat.le_antisymm (Nat.lt_succ_iff.1 (Nat.lt_of_not_le most)) least)
  exact ⟨contestedRun, rejecting, two, ends ▸ upTo, alone 2 attested, first 2 _ _ observed⟩

end Journal

end TokenBridge
