import TokenBridge.Proofs.Journal
/-!
Signer sets over time. An order that is carried out stores one set at most, under the nonce after the latest, or
changes the configuration; the identifier of the bridge stays, the threshold of drift stays above zero, and what is
stored is not written again.
-/
namespace TokenBridge

open TokenBridge.Action

variable {s t u : Store} {block : Block} {caller : Caller} {r : Response} {order : Order}

structure SigningKept (s t : Store) : Prop where
  signerSets : t.signerSets = s.signerSets
  latestSet : t.latestSet = s.latestSet
  config : t.config = s.config

theorem SigningKept.here : SigningKept s s := ⟨rfl, rfl, rfl⟩

theorem SigningKept.trans (h : SigningKept s t) (h' : SigningKept t u) : SigningKept s u :=
  ⟨h'.signerSets.trans h.signerSets, h'.latestSet.trans h.latestSet, h'.config.trans h.config⟩

theorem PoolMoved.signing (h : PoolMoved s t) : SigningKept s t := by
  obtain ⟨_, _, _, _, rfl⟩ := h
  exact ⟨rfl, rfl, rfl⟩

theorem PassMoved.signing (h : PassMoved s t) : SigningKept s t := by
  obtain ⟨_, _, _, _, _, _, _, _, _, _, ⟨_, _, _, _, rfl⟩, rfl⟩ := h
  exact ⟨rfl, rfl, rfl⟩

theorem StakesMoved.signing (h : StakesMoved s t) : SigningKept s t := by
  obtain ⟨_, _, rfl⟩ := h
  exact ⟨rfl, rfl, rfl⟩

namespace SignerSet

theorem currentOk {view : StakeView} {height : UInt64} {set : SignerSet}
    (h : current view height s = .ok set) :
    ∃ c nonce, s.config = some c ∧ Counter.next? s.latestSet = some nonce ∧
      set = canonical ⟨nonce, height, view.signers s, (rewardOf s c).1, (rewardOf s c).2⟩ := by
  unfold current at h
  split at h
  · cases h
  · rename_i c found
    split at h
    · cases h
    · rename_i nonce next
      exact ⟨c, nonce, found, next, (Except.ok.inj h).symm⟩

end SignerSet

inductive Signing (block : Block) (s t : Store) : Prop where
  | kept (kept : SigningKept s t)
  | amended {c d : Config} {pendingAdmin : Option PendingAdmin} (found : s.config = some c)
      (after : t = { s with config := some d, pendingAdmin }) (bridge : d.bridgeId = c.bridgeId)
      (threshold : d.driftThreshold = c.driftThreshold ∨ d.driftThreshold.atomics ≠ 0)
  | stored {u : Store} {set : SignerSet} (kept : SigningKept s u)
      (made : SignerSet.current .stored block.height u = .ok set) (filled : set.members ≠ [])
      (after : t = SignerSet.keep set u)

theorem Admin.changedThreshold {c : Config} {change : ConfigChange}
    (checked : ∀ d, change.driftThreshold = some d → d.atomics ≠ 0 ∧ Decimal.one.below d = false) :
    (changed c change).driftThreshold = c.driftThreshold ∨
      (changed c change).driftThreshold.atomics ≠ 0 := by
  cases proposed : change.driftThreshold with
  | none => exact .inl (by simp [changed, proposed])
  | some d => exact .inr (by simpa [changed, proposed] using (checked d proposed).1)

theorem Housekeeping.endBlockSigning (h : Yields (Housekeeping.endBlock block) s r t) :
    Signing block s t := by
  obtain ⟨_, _, _, _, pass, returned, stored, _⟩ := endBlockYields h
  have kept := (Observing.passMoves pass).signing.trans (Batching.dissolvesMove returned).signing
  obtain ⟨_, now, _, made, ⟨_, _, rfl⟩ | ⟨_, _, _, rfl⟩ | ⟨filled, _, _, after⟩⟩ :=
    SignerSet.storeDriftedYields stored
  · exact .kept kept
  · exact .kept kept
  · exact .stored kept made filled after

theorem Contract.executeSigning {m : Message} (h : Yields (Contract.execute block caller m) s r t) :
    Signing block s t := by
  cases m with
  | setOrchestrator orchestrator signer =>
    obtain ⟨_, _, _, _, _, _, _, _, _, rfl, _⟩ := Directory.setOrchestratorYields h
    exact .kept ⟨rfl, rfl, rfl⟩
  | addStaticValidator name =>
    obtain ⟨_, _, _, _, _, rfl, _⟩ := Directory.addStaticValidatorYields h
    exact .kept ⟨rfl, rfl, rfl⟩
  | updatePowers reports =>
    obtain ⟨_, _, _, rfl, _⟩ := Directory.updatePowersYields h
    exact .kept (Directory.reportMoves reports s).signing
  | submitClaim claim =>
    obtain ⟨_, _, _, u, _, _, _, _, cast, pass, _⟩ := Observing.submitYields h
    have voted : SigningKept s u := by
      obtain ⟨_, rfl⟩ := Voting.castYields cast
      exact ⟨rfl, rfl, rfl⟩
    exact .kept (voted.trans (Observing.passMoves pass).signing)
  | processAttestations =>
    obtain ⟨_, pass, _⟩ := Observing.processYields h
    exact .kept (Observing.passMoves pass).signing
  | requestSet =>
    obtain ⟨_, now, _, _, made, filled, after, _⟩ := SignerSet.requestYields h
    exact .stored .here made filled after
  | confirmSet nonce signer signature =>
    obtain ⟨_, _, _, _, _, _, _, rfl, _⟩ := SignerSet.confirmYields h
    exact .kept ⟨rfl, rfl, rfl⟩
  | endBlock => exact Housekeeping.endBlockSigning h
  | sendToEth | receive | cancelTransfer | requestBatch | registerToken =>
    obtain ⟨_, _, _, _, _, _, _, _, _, rfl⟩ := Contract.escrowMoves rfl h
    exact .kept ⟨rfl, rfl, rfl⟩
  | confirmBatch nonce token signer signature =>
    obtain ⟨_, _, _, _, _, _, _, _, _, rfl, _⟩ := Batching.confirmYields h
    exact .kept ⟨rfl, rfl, rfl⟩
  | updateConfig change =>
    obtain ⟨_, found, _, checked, _, rfl, _, _⟩ := Admin.updateConfigYields h
    exact .amended found rfl rfl (Admin.changedThreshold checked)
  | setMinimumFee fee =>
    obtain ⟨_, _, found, _, rfl, _⟩ := Admin.setMinimumFeeYields h
    exact .amended found rfl rfl (.inl rfl)
  | pause =>
    obtain ⟨_, found, _, rfl, _⟩ := Admin.pauseYields h
    exact .amended found rfl rfl (.inl rfl)
  | unpause =>
    obtain ⟨_, found, _, rfl, _⟩ := Admin.unpauseYields h
    exact .amended found rfl rfl (.inl rfl)
  | proposeAdmin name =>
    obtain ⟨_, _, _, _, _, _, _, rfl, _⟩ := Admin.proposeYields h
    exact .kept ⟨rfl, rfl, rfl⟩
  | acceptAdmin =>
    obtain ⟨_, _, _, _, _, found, rfl, _⟩ := Admin.acceptYields h
    exact .amended found rfl rfl (.inl rfl)
  | cancelProposal =>
    obtain ⟨_, _, _, rfl, _⟩ := Admin.cancelProposalYields h
    exact .kept ⟨rfl, rfl, rfl⟩

theorem Chain.laterSigning (later : order.setsUp = false)
    (h : Yields (Chain.action block order) s r t) : Signing block s t := by
  cases order with
  | setUp => cases later
  | execute => exact Contract.executeSigning h
  | migrate =>
    obtain ⟨_, rfl⟩ := yieldsPure.1 h
    exact .kept .here

structure Signable (s : Store) : Prop where
  keyed : ∀ n set, s.signerSets.get? n = some set → set.nonce = n
  numbered : ∀ n set, s.signerSets.get? n = some set → n.toNat ≤ s.latestSet.toNat
  configured : ∃ c, s.config = some c ∧ c.driftThreshold.atomics ≠ 0

theorem SigningKept.signable (kept : SigningKept s t) (h : Signable s) : Signable t where
  keyed := by rw [kept.signerSets]; exact h.keyed
  numbered := by rw [kept.signerSets, kept.latestSet]; exact h.numbered
  configured := by rw [kept.config]; exact h.configured

theorem Signable.keep {view : StakeView} {height : UInt64} {set : SignerSet} (h : Signable s)
    (made : SignerSet.current view height s = .ok set) : Signable (SignerSet.keep set s) := by
  obtain ⟨_, nonce, _, next, rfl⟩ := SignerSet.currentOk made
  have later := Counter.nextVal next
  constructor
  case keyed =>
    intro n set found
    simp only [SignerSet.keep, SortedMap.getInsert] at found
    split at found
    · rename_i same
      cases found
      exact same
    · exact h.keyed n set found
  case numbered =>
    intro n set found
    simp only [SignerSet.keep, SignerSet.canonical, SortedMap.getInsert] at found ⊢
    split at found
    · rename_i same
      exact Nat.le_of_eq (congrArg UInt64.toNat same.symm)
    · have bound := h.numbered n set found
      omega
  case configured => exact h.configured

theorem Signing.signable (h : Signable s) (signing : Signing block s t) : Signable t := by
  cases signing with
  | kept kept => exact kept.signable h
  | amended found after _ threshold =>
    subst after
    refine ⟨h.keyed, h.numbered, _, rfl, ?_⟩
    obtain ⟨e, found', positive⟩ := h.configured
    rw [found] at found'
    cases found'
    rcases threshold with same | amended
    · rw [same]
      exact positive
    · exact amended
  | stored kept made _ after =>
    subst after
    exact (kept.signable h).keep made

structure SetsLast (s t : Store) : Prop where
  bridge : ∀ c, s.config = some c → ∃ d, t.config = some d ∧ d.bridgeId = c.bridgeId
  sets : ∀ n set, s.signerSets.get? n = some set → t.signerSets.get? n = some set

theorem SetsLast.here : SetsLast s s := ⟨fun c found => ⟨c, found, rfl⟩, fun _ _ found => found⟩

theorem SetsLast.trans (h : SetsLast s t) (h' : SetsLast t u) : SetsLast s u where
  bridge c found := by
    obtain ⟨d, found, same⟩ := h.bridge c found
    obtain ⟨e, found, same'⟩ := h'.bridge d found
    exact ⟨e, found, same'.trans same⟩
  sets n set found := h'.sets n set (h.sets n set found)

theorem SigningKept.setsLast (kept : SigningKept s t) : SetsLast s t where
  bridge c found := ⟨c, kept.config.trans found, rfl⟩
  sets n set found := by rw [kept.signerSets]; exact found

theorem Signing.setsLast (h : Signable s) (signing : Signing block s t) : SetsLast s t := by
  cases signing with
  | kept kept => exact kept.setsLast
  | amended found after bridge _ =>
    subst after
    refine ⟨fun c found' => ⟨_, rfl, ?_⟩, fun _ _ found => found⟩
    rw [found] at found'
    cases found'
    exact bridge
  | @stored u set kept made _ after =>
    subst after
    refine kept.setsLast.trans ⟨fun c found => ⟨c, found, rfl⟩, fun n old found => ?_⟩
    obtain ⟨_, nonce, _, next, rfl⟩ := SignerSet.currentOk made
    have later := Counter.nextVal next
    have bound := (kept.signable h).numbered n old found
    refine (SortedMap.getInsertOther _ _ fun same => ?_).trans found
    have same := congrArg UInt64.toNat same
    simp only [SignerSet.canonical] at same
    omega

theorem Contract.setUpChecked {m : Setup} (h : Yields (Contract.setUp m) s r t) :
    (m.driftThreshold.getD (.percent 5)).atomics ≠ 0 := by
  simp only [Contract.setUp, Admin.checkDrift, yieldsBind, yieldsAccount, yieldsOfExcept,
    yieldsRequire, configOf] at h
  obtain ⟨_, _, _, _, _, _, _, _, ⟨checked, _⟩, _⟩ := h
  simpa using (Bool.and_eq_true_iff.1 checked).1

theorem Contract.setUpConfig {m : Setup} (h : Yields (Contract.setUp m) .empty r t) :
    t.signerSets = ∅ ∧ t.latestSet = 0 ∧ ∃ admin, t.config = some (configOf admin m) := by
  obtain ⟨admin, _, after, _, _⟩ := Contract.setUpYields h
  obtain ⟨_, _, same⟩ := Directory.reportMoves m.stakes { Store.empty with
    config := some (configOf admin m)
    staticValidators := m.staticValidators.foldl
      (fun table name => table.insert ⟨name⟩ ()) Store.empty.staticValidators }
  rw [after, same]
  exact ⟨rfl, rfl, admin, rfl⟩

namespace Journal

variable {i j : Journal}

theorem Run.signable (run : Run j) : Signable j.store := by
  refine Run.keeps ?setUp ?deed run
  case setUp =>
    intro block m r t yields
    obtain ⟨none, _, admin, configured⟩ := Contract.setUpConfig yields
    refine ⟨fun n set found => ?_, fun n set found => ?_, _, configured, Contract.setUpChecked yields⟩
    · rw [none] at found
      cases found
    · rw [none] at found
      cases found
  case deed =>
    intro j block order r t _ inv later yields
    exact (Chain.laterSigning later yields).signable inv

theorem Follows.setsLast (h : Follows i j) (run : Run i) : SetsLast i.store j.store := by
  refine Follows.keeps h run .here ?_
  intro j block order r t run last later yields
  exact last.trans ((Chain.laterSigning later yields).setsLast run.signable)

end Journal

end TokenBridge
