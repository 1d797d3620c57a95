import TokenBridge.Proofs.Signing.Drift
import TokenBridge.Proofs.Signing.Lasting
import TokenBridge.Proofs.Voting.Electorate
/-!
Confirmations of signer sets and batches. Each is under the signer that its orchestrator's validator has bound, for a
set or a batch that is stored. Sets stay; a batch that leaves the store takes its own confirmations along and no
others.
-/
namespace TokenBridge

open TokenBridge.Action

variable {s t u : Store} {block : Block} {caller : Caller} {r : Response} {order : Order} {e : Effect}
  {token : Address} {nonce : UInt64}

def Store.SignsFor (s : Store) (orchestrator : Account) (signer : Address) : Prop :=
  ∃ v, s.validatorOf.get? orchestrator = some v ∧ s.signerOf.get? v = some signer

def Store.BatchAt (s : Store) (token : Address) (nonce : UInt64) : Prop :=
  ∃ b, s.batches.get? (token, nonce) = some b

structure Shed (s t : Store) : Prop where
  sets : t.setConfirmations = s.setConfirmations
  batches : ∀ k n o c, t.batchConfirmations.get? (k, n, o) = some c ↔
    s.batchConfirmations.get? (k, n, o) = some c ∧ (s.BatchAt k n → t.BatchAt k n)

theorem Shed.kept (sets : t.setConfirmations = s.setConfirmations)
    (confirmations : t.batchConfirmations = s.batchConfirmations)
    (batches : ∀ k n, s.BatchAt k n → t.BatchAt k n) : Shed s t where
  sets := sets
  batches k n o c := by
    rw [confirmations]
    exact (and_iff_left (batches k n)).symm

structure Cleared (s t : Store) : Prop where
  fewer : Batching.FewerBatches s t
  shed : Shed s t

namespace Cleared

theorem kept (sets : t.setConfirmations = s.setConfirmations)
    (confirmations : t.batchConfirmations = s.batchConfirmations) (batches : t.batches = s.batches) :
    Cleared s t where
  fewer _ _ found := batches ▸ found
  shed := .kept sets confirmations fun _ _ ⟨b, found⟩ => ⟨b, batches ▸ found⟩

theorem here : Cleared s s := .kept rfl rfl rfl

theorem trans (h : Cleared s t) (h' : Cleared t u) : Cleared s u where
  fewer := h.fewer.trans h'.fewer
  shed := by
    refine ⟨h'.shed.sets.trans h.shed.sets, fun k n o c => ?_⟩
    rw [h'.shed.batches, h.shed.batches, and_assoc]
    refine and_congr_right fun _ => ⟨fun ⟨first, second⟩ here => second (first here), fun through => ?_⟩
    -- A batch in the middle was there at the start, since none comes in.
    refine ⟨fun here => ?_, fun ⟨b, between⟩ => through ⟨b, h.fewer (k, n) b between⟩⟩
    obtain ⟨b, found⟩ := through here
    exact ⟨b, h'.fewer (k, n) b found⟩

end Cleared

namespace Batching

theorem discardCleared {b : Batch} (found : s.batches.get? (token, nonce) = some b) :
    Cleared s (discard token nonce s) where
  fewer := discardFewer
  shed := by
    refine ⟨rfl, fun k n o c => ?_⟩
    have stays : (s.BatchAt k n → (discard token nonce s).BatchAt k n) ↔ ¬ (k = token ∧ n = nonce) := by
      constructor
      · rintro through ⟨rfl, rfl⟩
        obtain ⟨_, left⟩ := through ⟨b, found⟩
        exact (discardBatches.1 left).2 ⟨rfl, rfl⟩
      · rintro apart ⟨c, here⟩
        exact ⟨c, discardBatches.2 ⟨here, apart⟩⟩
    rw [stays, discardConfirmations]

theorem dissolveCleared {v : PUnit} (done : Yields (dissolve token nonce) s v t) : Cleared s t := by
  obtain ⟨b, found, rfl⟩ := dissolveYields done
  obtain ⟨_, _, added⟩ := Pool.addAllKeeps b.transfers s
  have pooled : Cleared s (Pool.addAll b.transfers s) := by
    rw [added]
    exact .kept rfl rfl rfl
  have stored : (Pool.addAll b.transfers s).batches.get? (token, nonce) = some b := by
    rw [added]
    exact found
  exact pooled.trans (discardCleared stored)

theorem dissolvesCleared {α : Type} {xs : List α} {token : α → Address} {nonce : α → UInt64} {v : PUnit}
    (done : Yields (forM xs fun x => dissolve (token x) (nonce x)) s v t) : Cleared s t :=
  forMKeeps done .here fun _ _ _ _ cleared round => cleared.trans (dissolveCleared round)

theorem assembleShed {limit : Nat} {height timeout : UInt64} {b : Batch}
    (made : Yields (assemble token limit height timeout) s b t) : Shed s t := by
  obtain ⟨_, _, _, _, _, _, rfl⟩ := assembleYields made
  obtain ⟨_, _, removed⟩ := Pool.removeAllKeeps b.transfers s
  rw [removed]
  refine .kept rfl rfl fun k n ⟨c, found⟩ => ?_
  rw [Store.BatchAt, SortedMap.getInsert]
  split
  · exact ⟨b, rfl⟩
  · exact ⟨c, found⟩

theorem executedCleared (done : Yields (executed token nonce) s e t) : Cleared s t := by
  rcases executedYields done with ⟨_, _, rfl⟩ | ⟨b, u, _, found, _, older, last⟩
  · exact .here
  · have cleared : Cleared s (discard token nonce u) :=
      (dissolvesCleared older).trans (discardCleared (olderSpares older found))
    split at last
    · obtain ⟨_, rfl⟩ := last
      exact cleared
    · rcases settleYields last with ⟨_, _, _, rfl, _⟩ | ⟨_, rfl, _⟩
      · exact cleared.trans (.kept rfl rfl rfl)
      · exact cleared

end Batching

namespace Observing

theorem takeEffectCleared {claim : Claim} (done : Yields (takeEffect block claim) s e t) : Cleared s t := by
  unfold takeEffect at done
  split at done
  · rcases Registry.depositedYields done with ⟨_, _, rfl⟩ | ⟨_, _, ⟨_, _, paid⟩ | ⟨_, _, rfl⟩⟩
    · exact .here
    · rcases Registry.payOutYields paid with ⟨_, _, _, rfl, _⟩ | ⟨_, rfl, _⟩ | ⟨_, rfl, _⟩
      · exact .kept rfl rfl rfl
      · exact .here
      · exact .here
    · exact .kept rfl rfl rfl
  · exact Batching.executedCleared done
  · obtain ⟨_, _, rfl⟩ := callExecutedYields done
    exact .kept rfl rfl rfl
  · rcases Registry.deployedYields done with ⟨_, _, _, rfl⟩ | ⟨_, _, rfl⟩
    · exact .here
    · exact .kept rfl rfl rfl
  · obtain ⟨_, rfl⟩ := SignerSet.installedYields done
    exact .kept rfl rfl rfl

theorem passCleared {view : StakeView} {os : List Observation} (pass : Pass view block s os t) :
    Cleared s t := by
  induction pass with
  | rest s => exact .here
  | @observe s u t nonce fingerprint a _ _ _ _ _ effect _ ih =>
    have marked : Cleared s (mark nonce fingerprint a s) := .kept rfl rfl rfl
    exact (marked.trans (takeEffectCleared effect)).trans ih

end Observing

inductive Confirming (s t : Store) : Prop where
  | shed (shed : Shed s t)
  | ofSet {c : SetConfirmation} (stored : ∃ set, s.signerSets.get? c.nonce = some set)
      (signs : s.SignsFor c.orchestrator c.signer)
      (fresh : s.setConfirmations.get? (c.nonce, c.orchestrator) = none)
      (after : t = { s with
        setConfirmations := s.setConfirmations.insert (c.nonce, c.orchestrator) c })
  | ofBatch {c : BatchConfirmation} (stored : s.BatchAt c.token c.nonce)
      (signs : s.SignsFor c.orchestrator c.signer)
      (fresh : s.batchConfirmations.get? (c.token, c.nonce, c.orchestrator) = none)
      (after : t = { s with
        batchConfirmations := s.batchConfirmations.insert (c.token, c.nonce, c.orchestrator) c })

theorem Cleared.confirming (h : Cleared s t) : Confirming s t := .shed h.shed

theorem Housekeeping.endBlockConfirming (h : Yields (Housekeeping.endBlock block) s r t) :
    Confirming s t := by
  obtain ⟨_, _, _, _, pass, returned, stored, _⟩ := endBlockYields h
  have cleared := (Observing.passCleared pass).trans (Batching.dissolvesCleared returned)
  obtain ⟨_, _, _, _, ⟨_, _, rfl⟩ | ⟨_, _, _, rfl⟩ | ⟨_, _, _, rfl⟩⟩ := SignerSet.storeDriftedYields stored
  · exact cleared.confirming
  · exact cleared.confirming
  · refine (cleared.trans ?_).confirming
    exact .kept rfl rfl rfl

theorem Contract.executeConfirming {m : Message} (h : Yields (Contract.execute block caller m) s r t) :
    Confirming s t := by
  have still (sets : t.setConfirmations = s.setConfirmations)
      (confirmations : t.batchConfirmations = s.batchConfirmations) (batches : t.batches = s.batches) :
      Confirming s t := (Cleared.kept sets confirmations batches).confirming
  cases m with
  | setOrchestrator orchestrator signer =>
    obtain ⟨_, _, _, _, _, _, _, _, _, rfl, _⟩ := Directory.setOrchestratorYields h
    exact still rfl rfl rfl
  | addStaticValidator name =>
    obtain ⟨_, _, _, _, _, rfl, _⟩ := Directory.addStaticValidatorYields h
    exact still rfl rfl rfl
  | updatePowers reports =>
    obtain ⟨_, _, _, rfl, _⟩ := Directory.updatePowersYields h
    obtain ⟨_, _, same⟩ := Directory.reportMoves reports s
    rw [same] at still ⊢
    exact still rfl rfl rfl
  | submitClaim claim =>
    obtain ⟨_, _, _, u, _, _, _, _, cast, pass, _⟩ := Observing.submitYields h
    have voted : Cleared s u := by
      obtain ⟨_, rfl⟩ := Voting.castYields cast
      exact .kept rfl rfl rfl
    exact (voted.trans (Observing.passCleared pass)).confirming
  | processAttestations =>
    obtain ⟨_, pass, _⟩ := Observing.processYields h
    exact (Observing.passCleared pass).confirming
  | requestSet =>
    obtain ⟨_, _, _, _, _, _, rfl, _⟩ := SignerSet.requestYields h
    exact still rfl rfl rfl
  | confirmSet nonce signer signature =>
    obtain ⟨v, a, bound, _, stored, signs, fresh, rfl, _⟩ := SignerSet.confirmYields h
    exact .ofSet (c := ⟨nonce, caller.sender, a, signature⟩) (Option.isSome_iff_exists.1 stored)
      ⟨v, bound, signs⟩ (SortedMap.absentIff.1 fresh) rfl
  | endBlock => exact Housekeeping.endBlockConfirming h
  | sendToEth | receive | cancelTransfer =>
    obtain ⟨_, _, _, rfl⟩ := Contract.transferMoves rfl h
    exact still rfl rfl rfl
  | requestBatch token limit =>
    obtain ⟨_, _, _, _, _, _, made, _, _⟩ := Batching.requestYields h
    exact .shed (Batching.assembleShed made)
  | confirmBatch nonce token signer signature =>
    obtain ⟨v, k, a, bound, _, _, stored, signs, fresh, rfl, _⟩ := Batching.confirmYields h
    exact .ofBatch (c := ⟨nonce, k, caller.sender, a, signature⟩) (Option.isSome_iff_exists.1 stored)
      ⟨v, bound, signs⟩ (SortedMap.absentIff.1 fresh) rfl
  | registerToken token cw20 =>
    obtain ⟨_, _, _, _, _, _, _, _, rfl, _⟩ := Registry.registerTokenYields h
    obtain ⟨_, unparked⟩ := Registry.unparkAllMoves _ _ _
    rw [unparked] at still ⊢
    exact still rfl rfl rfl
  | updateConfig | setMinimumFee | pause | unpause | proposeAdmin | acceptAdmin | cancelProposal =>
    obtain ⟨⟨_, _, rfl⟩, _⟩ := Contract.adminMoves rfl h
    exact still rfl rfl rfl

theorem Chain.laterConfirming (later : order.setsUp = false)
    (h : Yields (Chain.action block order) s r t) : Confirming s t := by
  cases order with
  | setUp => cases later
  | execute => exact Contract.executeConfirming h
  | migrate =>
    obtain ⟨_, rfl⟩ := yieldsPure.1 h
    exact Cleared.here.confirming

structure BindingsLast (s t : Store) : Prop where
  led : ∀ o v, s.validatorOf.get? o = some v → t.validatorOf.get? o = some v
  signs : ∀ v a, s.signerOf.get? v = some a → t.signerOf.get? v = some a

theorem PollKept.bindingsLast (h : PollKept s t) : BindingsLast s t where
  led o v bound := by
    rw [h.validatorOf]
    exact bound
  signs v a bound := by
    rw [h.signerOf]
    exact bound

theorem Enrolled.bindingsLast (h : Enrolled s t) : BindingsLast s t := by
  obtain ⟨unsigned, unled, _, rfl⟩ := h
  refine ⟨fun o v bound => ?_, fun v a bound => ?_⟩
  · refine (SortedMap.getInsertOther _ _ fun same => ?_).trans bound
    rw [same, bound] at unled
    cases unled
  · refine (SortedMap.getInsertOther _ _ fun same => ?_).trans bound
    rw [same, bound] at unsigned
    cases unsigned

theorem Polling.bindingsLast (polling : Polling block s t) : BindingsLast s t := by
  cases polling with
  | kept kept => exact kept.bindingsLast
  | voted _ _ cast kept =>
    obtain ⟨_, rfl⟩ := Voting.castYields cast
    exact ⟨kept.bindingsLast.led, kept.bindingsLast.signs⟩
  | enrolled enrolled => exact enrolled.bindingsLast

theorem BindingsLast.signsFor {o : Account} {a : Address} (last : BindingsLast s t)
    (h : s.SignsFor o a) : t.SignsFor o a := by
  obtain ⟨v, bound, signs⟩ := h
  exact ⟨v, last.led o v bound, last.signs v a signs⟩

structure Confirmed (s : Store) : Prop where
  sets : ∀ n o c, s.setConfirmations.get? (n, o) = some c →
    c.nonce = n ∧ c.orchestrator = o ∧ (∃ set, s.signerSets.get? n = some set) ∧ s.SignsFor o c.signer
  batches : ∀ k n o c, s.batchConfirmations.get? (k, n, o) = some c →
    c.token = k ∧ c.nonce = n ∧ c.orchestrator = o ∧ s.BatchAt k n ∧ s.SignsFor o c.signer

theorem Confirmed.empty {t : Store} (sets : t.setConfirmations = ∅) (batches : t.batchConfirmations = ∅) :
    Confirmed t where
  sets n o c found := by
    rw [sets] at found
    cases found
  batches k n o c found := by
    rw [batches] at found
    cases found

theorem Confirming.confirmed (h : Confirmed s) (bindings : BindingsLast s t) (last : SetsLast s t)
    (confirming : Confirming s t) : Confirmed t := by
  cases confirming with
  | shed shed =>
    constructor
    · intro n o c found
      rw [shed.sets] at found
      obtain ⟨atNonce, byWhom, ⟨set, stored⟩, signs⟩ := h.sets n o c found
      exact ⟨atNonce, byWhom, ⟨set, last.sets n set stored⟩, bindings.signsFor signs⟩
    · intro k n o c found
      obtain ⟨old, stays⟩ := (shed.batches k n o c).1 found
      obtain ⟨ofToken, atNonce, byWhom, stored, signs⟩ := h.batches k n o c old
      exact ⟨ofToken, atNonce, byWhom, stays stored, bindings.signsFor signs⟩
  | @ofSet d stored signs _ after =>
    subst after
    refine ⟨fun n o c found => ?_, h.batches⟩
    simp only [SortedMap.getInsert] at found
    split at found
    · rename_i same
      cases same
      cases found
      exact ⟨rfl, rfl, stored, signs⟩
    · exact h.sets n o c found
  | @ofBatch d stored signs _ after =>
    subst after
    refine ⟨h.sets, fun k n o c found => ?_⟩
    simp only [SortedMap.getInsert] at found
    split at found
    · rename_i same
      cases same
      cases found
      exact ⟨rfl, rfl, rfl, stored, signs⟩
    · exact h.batches k n o c found

structure ConfirmationsLast (s t : Store) : Prop where
  sets : ∀ key c, s.setConfirmations.get? key = some c → t.setConfirmations.get? key = some c
  batches : ∀ k n o c, s.batchConfirmations.get? (k, n, o) = some c → t.BatchAt k n →
    t.batchConfirmations.get? (k, n, o) = some c

theorem ConfirmationsLast.trans (confirmed : Confirmed s) (filed : Batching.Filed s) (h : ConfirmationsLast s t)
    (aged : BatchesAged s t) (h' : ConfirmationsLast t u) (aged' : BatchesAged t u) : ConfirmationsLast s u where
  sets key c found := h'.sets key c (h.sets key c found)
  batches k n o c found := by
    rintro ⟨b, stored⟩
    obtain ⟨_, _, _, ⟨first, here⟩, _⟩ := confirmed.batches k n o c found
    have given := Nat.le_trans (filed.numbered k n first here) (aged.reached k)
    have between := aged'.passed k n b given stored
    exact h'.batches k n o c (h.batches k n o c found ⟨b, between⟩) ⟨b, stored⟩

theorem Confirming.last (confirming : Confirming s t) : ConfirmationsLast s t := by
  cases confirming with
  | shed shed =>
    refine ⟨fun key c found => ?_, fun k n o c found stored => ?_⟩
    · rw [shed.sets]
      exact found
    · exact (shed.batches k n o c).2 ⟨found, fun _ => stored⟩
  | ofSet _ _ fresh after =>
    subst after
    refine ⟨fun key c found => ?_, fun _ _ _ _ found _ => found⟩
    refine (SortedMap.getInsertOther _ _ fun same => ?_).trans found
    rw [same, found] at fresh
    cases fresh
  | ofBatch _ _ fresh after =>
    subst after
    refine ⟨fun _ _ found => found, fun k n o c found _ => ?_⟩
    refine (SortedMap.getInsertOther _ _ fun same => ?_).trans found
    rw [same, found] at fresh
    cases fresh

theorem Contract.setUpUnconfirmed {m : Setup} (h : Yields (Contract.setUp m) .empty r t) :
    t.setConfirmations = ∅ ∧ t.batchConfirmations = ∅ := by
  obtain ⟨_, _, rfl, _, _⟩ := Contract.setUpYields h
  obtain ⟨_, _, same⟩ := Directory.reportMoves m.stakes _
  rw [same]
  exact ⟨rfl, rfl⟩

theorem Store.SignsFor.alone {o o' : Account} {a : Address} (oneToOne : s.OneToOne) (apart : s.SignersApart)
    (h : s.SignsFor o a) (h' : s.SignsFor o' a) : o = o' := by
  obtain ⟨v, bound, signs⟩ := h
  obtain ⟨v', bound', signs'⟩ := h'
  have listed := apart v a signs
  rw [apart v' a signs'] at listed
  cases listed
  have leads := (oneToOne o v).1 bound
  rw [(oneToOne o' v).1 bound'] at leads
  exact (Option.some.inj leads).symm

namespace Journal

variable {i j k : Journal}

theorem Run.confirmed (run : Run j) : Confirmed j.store := by
  refine Run.keeps ?setUp ?deed run
  case setUp =>
    intro _ _ _ _ yields
    obtain ⟨sets, batches⟩ := Contract.setUpUnconfirmed yields
    exact .empty sets batches
  case deed =>
    intro j block order r t past inv later yields
    exact (Chain.laterConfirming later yields).confirmed inv (Chain.laterPolling later yields).bindingsLast
      ((Chain.laterSigning later yields).setsLast past.signable)

theorem Follows.confirmationsLast (h : Follows j k) (run : Run j) : ConfirmationsLast j.store k.store := by
  suffices both : BatchesAged j.store k.store ∧ ConfirmationsLast j.store k.store from both.2
  refine Follows.keeps h run ⟨EscrowKept.here.aged, fun _ _ found => found, fun _ _ _ _ found _ => found⟩ ?_
  rintro i block order r t past ⟨aged, last⟩ later yields
  have further := (Chain.laterMovement later yields).aged past.accounted.holding
  exact ⟨aged.trans further, last.trans run.confirmed run.accounted.holding.filed aged
    (Chain.laterConfirming later yields).last further⟩

/-- Confirmations are of what is stored, each by a bound orchestrator under the signer of its validator, and no two of
the same under one signer. At every later point they are what they were, except that a batch takes its own along. -/
theorem Run.confirmedInPlace (run : Run j) :
    (∀ n o c, j.store.setConfirmations.get? (n, o) = some c →
      c.nonce = n ∧ c.orchestrator = o ∧ (∃ set, j.store.signerSets.get? n = some set) ∧
      ∃ v, j.store.validatorOf.get? o = some v ∧ j.store.signerOf.get? v = some c.signer) ∧
    (∀ token n o c, j.store.batchConfirmations.get? (token, n, o) = some c →
      c.token = token ∧ c.nonce = n ∧ c.orchestrator = o ∧
      (∃ b, j.store.batches.get? (token, n) = some b) ∧
      ∃ v, j.store.validatorOf.get? o = some v ∧ j.store.signerOf.get? v = some c.signer) ∧
    (∀ n o o' c c', j.store.setConfirmations.get? (n, o) = some c →
      j.store.setConfirmations.get? (n, o') = some c' → o ≠ o' → c.signer ≠ c'.signer) ∧
    (∀ token n o o' c c', j.store.batchConfirmations.get? (token, n, o) = some c →
      j.store.batchConfirmations.get? (token, n, o') = some c' → o ≠ o' → c.signer ≠ c'.signer) ∧
    ∀ k, Follows j k →
      (∀ n o c, j.store.setConfirmations.get? (n, o) = some c →
        k.store.setConfirmations.get? (n, o) = some c) ∧
      ∀ token n o c, j.store.batchConfirmations.get? (token, n, o) = some c →
        k.store.batchConfirmations.get? (token, n, o) = some c ∨
        (k.store.batchConfirmations.get? (token, n, o) = none ∧
          k.store.batches.get? (token, n) = none) := by
  have confirmed := run.confirmed
  refine ⟨confirmed.sets, confirmed.batches, ?setsApart, ?batchesApart, ?later⟩
  case setsApart =>
    intro n o o' c c' found found' apart same
    obtain ⟨_, _, _, signs⟩ := confirmed.sets n o c found
    obtain ⟨_, _, _, signs'⟩ := confirmed.sets n o' c' found'
    rw [← same] at signs'
    exact apart (signs.alone run.oneToOne run.signersApart signs')
  case batchesApart =>
    intro token n o o' c c' found found' apart same
    obtain ⟨_, _, _, _, signs⟩ := confirmed.batches token n o c found
    obtain ⟨_, _, _, _, signs'⟩ := confirmed.batches token n o' c' found'
    rw [← same] at signs'
    exact apart (signs.alone run.oneToOne run.signersApart signs')
  case later =>
    intro k later
    have last := later.confirmationsLast run
    refine ⟨fun n o c => last.sets (n, o) c, fun token n o c found => ?_⟩
    cases stored : k.store.batches.get? (token, n) with
    | some b => exact .inl (last.batches token n o c found ⟨b, stored⟩)
    | none =>
      refine .inr ⟨Option.eq_none_iff_forall_ne_some.2 fun d left => ?_, rfl⟩
      obtain ⟨_, _, _, ⟨b, here⟩, _⟩ := (later.run run).confirmed.batches token n o d left
      rw [stored] at here
      cases here

def countersigned : Journal :=
  elected.deliverAll
    [(⟨105, 6⟩, withdrawal "alice" (.small 100) (.small 7)),
      (⟨106, 7⟩, .execute ⟨⟨"carol"⟩, []⟩ (.requestBatch zeroWritten none)),
      (⟨107, 8⟩, .execute ⟨⟨"alpha"⟩, []⟩ .requestSet),
      (⟨108, 9⟩, ofSet "first" "0x0000000000000000000000000000000000000001"),
      (⟨109, 10⟩, ofSet "second" "0x0000000000000000000000000000000000000002"),
      (⟨110, 11⟩, ofBatch "first" "0x0000000000000000000000000000000000000001"),
      (⟨111, 12⟩, ofBatch "second" "0x0000000000000000000000000000000000000002")]
where
  ofSet (orchestrator signer : String) : Order :=
    .execute ⟨⟨orchestrator⟩, []⟩ (.confirmSet 1 signer ⟨[27]⟩)
  ofBatch (orchestrator signer : String) : Order :=
    .execute ⟨⟨orchestrator⟩, []⟩ (.confirmBatch 1 zeroWritten signer ⟨[28]⟩)

theorem countersignedRun : Run countersigned := electedRun.deliverAll (by decide)

def redeemed : Journal :=
  (countersigned.deliver ⟨112, 13⟩ (votes "first")).deliver ⟨113, 14⟩ (votes "second")
where
  votes (orchestrator : String) : Order :=
    .execute ⟨⟨orchestrator⟩, []⟩ (.submitClaim ⟨2, 60, .batchExecuted 1 .zero⟩)

theorem countersignedStores :
    (∃ c ∈ countersigned.store.setConfirmations.get? (1, ⟨"first"⟩),
      ∃ c' ∈ countersigned.store.setConfirmations.get? (1, ⟨"second"⟩), c.nonce = c'.nonce) ∧
    (∃ c ∈ countersigned.store.batchConfirmations.get? (.zero, 1, ⟨"first"⟩),
      ∃ c' ∈ countersigned.store.batchConfirmations.get? (.zero, 1, ⟨"second"⟩), c.nonce = c'.nonce) ∧
    redeemed.store.batches.get? (.zero, 1) = none := by
  decide +kernel

theorem countersignedInPlace :
    Run countersigned ∧ Follows countersigned redeemed ∧
    (∃ c c', countersigned.store.setConfirmations.get? (1, ⟨"first"⟩) = some c ∧
      countersigned.store.setConfirmations.get? (1, ⟨"second"⟩) = some c' ∧ c.signer ≠ c'.signer ∧
      c.nonce = 1 ∧ redeemed.store.setConfirmations.get? (1, ⟨"first"⟩) = some c) ∧
    ∃ c c', countersigned.store.batchConfirmations.get? (.zero, 1, ⟨"first"⟩) = some c ∧
      countersigned.store.batchConfirmations.get? (.zero, 1, ⟨"second"⟩) = some c' ∧ c.signer ≠ c'.signer ∧
      (∃ b, countersigned.store.batches.get? (.zero, 1) = some b) ∧
      redeemed.store.batchConfirmations.get? (.zero, 1, ⟨"first"⟩) = none := by
  have later : Follows countersigned redeemed := .later (.later (.here _) _ _ rfl) _ _ rfl
  obtain ⟨⟨c, first, c', second, _⟩, ⟨d, third, d', fourth, _⟩, gone⟩ := countersignedStores
  obtain ⟨sets, batches, setsApart, batchesApart, lasting⟩ := Run.confirmedInPlace countersignedRun
  obtain ⟨setsLast, batchesLast⟩ := lasting redeemed later
  have apart : (⟨"first"⟩ : Account) ≠ ⟨"second"⟩ := by decide
  refine ⟨countersignedRun, later,
    ⟨c, c', first, second, setsApart 1 _ _ c c' first second apart, (sets 1 _ c first).1,
      setsLast 1 _ c first⟩,
    d, d', third, fourth, batchesApart .zero 1 _ _ d d' third fourth apart,
    (batches .zero 1 _ d third).2.2.2.1, ?_⟩
  rcases batchesLast .zero 1 _ d third with left | ⟨none, _⟩
  · obtain ⟨_, afterwards, _⟩ := Run.confirmedInPlace (later.run countersignedRun)
    obtain ⟨b, stored⟩ := (afterwards .zero 1 _ d left).2.2.2.1
    rw [gone] at stored
    cases stored
  · exact none

end Journal

end TokenBridge
