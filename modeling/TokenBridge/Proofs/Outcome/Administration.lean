import TokenBridge.Proofs.Outcome.Basic
/-!
The messages that administer the bridge: the directory and its stakes, the configuration, the hand-over
of the admin's office, signer sets and confirmations. Each statement has the checks first and then the
store and the answer.
-/
namespace TokenBridge

open TokenBridge.Action

variable {s t : Store} {block : Block} {caller : Caller} {r : Response}

theorem Account.validateName {name : String} {a : Account} (h : Account.validate name = .ok a) :
    a = ⟨name⟩ := by
  unfold Account.validate at h
  split at h
  · cases h
  · split at h
    · cases h
    · split at h
      · exact (Except.ok.inj h).symm
      · cases h

namespace Directory

theorem setOrchestratorYields {orchestrator signer : String}
    (h : Yields (setOrchestrator caller orchestrator signer) s r t) :
    ∃ o a, Account.validate orchestrator = .ok o ∧ Address.parse signer = .ok a ∧
      s.isStatic caller.sender = true ∧ StakeView.stored.stakeOf s caller.sender ≠ 0 ∧
      s.signerOf.contains caller.sender = false ∧ s.validatorOf.contains o = false ∧
      s.validatorOfSigner.contains a = false ∧
      t = { s with
        signerOf := s.signerOf.insert caller.sender a
        validatorOfSigner := s.validatorOfSigner.insert a caller.sender
        validatorOf := s.validatorOf.insert o caller.sender
        orchestratorOf := s.orchestratorOf.insert caller.sender o } ∧
      r = .of "set_orchestrator_address"
        [("validator", toString caller.sender), ("orchestrator", toString o),
          ("eth_address", toString a)] := by
  simp only [setOrchestrator, Directory.bind, yieldsBind, yieldsAccount, yieldsAddress, yieldsGet,
    yieldsRequire, yieldsSet, yieldsPure] at h
  obtain ⟨o, _, ⟨ho, rfl⟩, a, _, ⟨ha, rfl⟩, _, _, ⟨rfl, rfl⟩, _, _, ⟨isStatic, rfl⟩, _, _,
    ⟨staked, rfl⟩, _, _, ⟨_, _, ⟨rfl, rfl⟩, _, _, ⟨first, rfl⟩, _, _, ⟨second, rfl⟩, _, _,
    ⟨third, rfl⟩, rfl⟩, rfl, rfl⟩ := h
  exact ⟨o, a, ho, ha, isStatic, by simpa using staked, by simpa using first,
    by simpa using second, by simpa using third, rfl, rfl⟩

theorem addStaticValidatorYields {name : String}
    (h : Yields (addStaticValidator caller name) s r t) :
    ∃ c v, s.config = some c ∧ caller.sender = c.admin ∧ Account.validate name = .ok v ∧
      t = { s with staticValidators := s.staticValidators.insert v () } ∧
      r = .of "add_static_validator" [("validator", toString v)] := by
  simpa [addStaticValidator, enrol, and_assoc] using h

theorem enrolAllYields {names : List String} {u : PUnit} (h : Yields (enrolAll names) s u t) :
    t = { s with
      staticValidators := names.foldl (fun table name => table.insert ⟨name⟩ ()) s.staticValidators } := by
  simp only [enrolAll, List.forM_eq_forM] at h
  induction names generalizing s with
  | nil => exact yieldsForMNil.1 h
  | cons name rest ih =>
    obtain ⟨v, first, later⟩ := yieldsForMCons.1 h
    simp only [yieldsBind, yieldsAccount, enrol, yieldsModify] at first
    obtain ⟨a, _, ⟨valid, rfl⟩, rfl⟩ := first
    rw [Account.validateName valid] at later
    exact ih later

theorem reportYields {reports : List StakeReport} {u : PUnit} (h : Yields (report reports) s u t) :
    t = reports.foldl (fun s report => s.setPower ⟨report.validator⟩ report.power) s := by
  simp only [report, List.forM_eq_forM] at h
  induction reports generalizing s with
  | nil => exact yieldsForMNil.1 h
  | cons report rest ih =>
    obtain ⟨v, first, later⟩ := yieldsForMCons.1 h
    simp only [yieldsBind, yieldsAccount, yieldsModify] at first
    obtain ⟨a, _, ⟨valid, rfl⟩, rfl⟩ := first
    rw [Account.validateName valid] at later
    exact ih later

theorem updatePowersYields {reports : List StakeReport}
    (h : Yields (updatePowers caller reports) s r t) :
    ∃ c, s.config = some c ∧ caller.sender = c.admin ∧
      t = reports.foldl (fun s report => s.setPower ⟨report.validator⟩ report.power) s ∧
      r = .of "update_validator_powers"
        [("updated", toString reports.length), ("total_power", toString t.totalPower)] := by
  simp only [updatePowers, yieldsBind, yieldsConfigFor, yieldsGet, yieldsPure] at h
  obtain ⟨c, _, ⟨found, admin, rfl⟩, _, u, reported, _, _, ⟨rfl, rfl⟩, rfl, rfl⟩ := h
  exact ⟨c, found, admin, reportYields reported, rfl⟩

end Directory

namespace Admin

theorem updateConfigYields {change : ConfigChange} (h : Yields (updateConfig caller change) s r t) :
    ∃ c, s.config = some c ∧ caller.sender = c.admin ∧
      (∀ d, change.driftThreshold = some d → d.atomics ≠ 0 ∧ Decimal.one.below d = false) ∧
      (∀ n, change.maxBatchSize = some n → n ≠ 0) ∧
      t = { s with config := some (changed c change) } ∧
      r.messages = [] ∧ r.observations = [] := by
  simp only [updateConfig, checkDrift, checkBatchSize, yieldsBind, yieldsConfigFor, yieldsSetConfig,
    yieldsPure, Option.forM_eq_forM, yieldsForMOption, yieldsRequire] at h
  obtain ⟨c, w, ⟨found, admin, rfl⟩, _, u, drift, _, v, size, _, _, rfl, rfl, rfl⟩ := h
  have sameU : u = w := by split at drift <;> simp_all
  have sameV : v = w := by split at size <;> simp_all
  subst sameU sameV
  refine ⟨c, found, admin, fun d hd => ?_, fun n hn => ?_, rfl, rfl, rfl⟩
  · simpa [hd] using drift
  · simpa [hn] using size

theorem setMinimumFeeYields {fee : Amount} (h : Yields (setMinimumFee caller fee) s r t) :
    ∃ c, s.isStatic caller.sender = true ∧ s.config = some c ∧ c.minimumFee ≠ fee ∧
      t = { s with config := some { c with minimumFee := fee } } ∧
      r = .of "set_minimum_fee"
        [("previous", toString c.minimumFee), ("minimum_fee", toString fee)] := by
  simpa [setMinimumFee, and_assoc] using h

theorem pauseYields (h : Yields (pause caller) s r t) :
    ∃ c, s.config = some c ∧ caller.sender = c.admin ∧
      t = { s with config := some { c with paused := true } } ∧ r = .of "pause" [] := by
  simpa [pause, and_assoc] using h

theorem unpauseYields (h : Yields (unpause caller) s r t) :
    ∃ c, s.config = some c ∧ caller.sender = c.admin ∧
      t = { s with config := some { c with paused := false } } ∧ r = .of "unpause" [] := by
  simpa [unpause, and_assoc] using h

theorem proposeYields {name : String} (h : Yields (propose block caller name) s r t) :
    ∃ c a after, s.config = some c ∧ caller.sender = c.admin ∧ Account.validate name = .ok a ∧
      Counter.add? block.time timelock = some after ∧
      t = { s with pendingAdmin := some ⟨a, after⟩ } ∧
      r = .of "propose_admin"
        [("new_admin", toString a), ("execute_after", toString (seconds after))] := by
  simp only [propose, yieldsBind, yieldsConfigFor, yieldsAccount, yieldsInRange, yieldsModify,
    yieldsPure] at h
  obtain ⟨c, _, ⟨found, admin, rfl⟩, a, _, ⟨valid, rfl⟩, after, _, ⟨inRange, rfl⟩, _, _, rfl,
    rfl, rfl⟩ := h
  exact ⟨c, a, after, found, admin, valid, inRange, rfl, rfl⟩

theorem acceptYields (h : Yields (accept block caller) s r t) :
    ∃ p c, s.pendingAdmin = some p ∧ caller.sender = p.account ∧
      Counter.below block.time p.executeAfter = false ∧ s.config = some c ∧
      t = { s with config := some { c with admin := p.account }, pendingAdmin := none } ∧
      r = .of "accept_admin" [("new_admin", toString p.account)] := by
  simp only [accept, yieldsBind, yieldsGet, yieldsSomeOr, yieldsRequire, yieldsConfig, yieldsModify,
    yieldsPure] at h
  obtain ⟨_, _, ⟨rfl, rfl⟩, p, _, ⟨pending, rfl⟩, _, _, ⟨sender, rfl⟩, _, _, ⟨due, rfl⟩, c, _,
    ⟨found, rfl⟩, _, _, rfl, rfl, rfl⟩ := h
  exact ⟨p, c, pending, by simpa using sender, by simpa using due, found, rfl, rfl⟩

theorem cancelProposalYields (h : Yields (cancelProposal caller) s r t) :
    ∃ c, s.config = some c ∧ caller.sender = c.admin ∧ t = { s with pendingAdmin := none } ∧
      r = .of "cancel_admin_proposal" [] := by
  simpa [cancelProposal, and_assoc] using h

end Admin

namespace SignerSet

theorem requestYields (h : Yields (request block caller) s r t) :
    ∃ c now, s.config = some c ∧ (caller.sender = c.admin ∨ s.isStatic caller.sender = true) ∧
      current .stored block.height s = .ok now ∧ now.members ≠ [] ∧ t = keep now s ∧
      r = .of "request_valset"
        [("valset_nonce", toString now.nonce), ("members", toString now.members.length)] := by
  simpa [request, storeNext, and_assoc] using h

theorem confirmYields {nonce : UInt64} {signer : String} {signature : Blob}
    (h : Yields (confirm caller nonce signer signature) s r t) :
    ∃ v a, s.validatorOf.get? caller.sender = some v ∧ Address.parse signer = .ok a ∧
      s.signerSets.contains nonce = true ∧ s.signerOf.get? v = some a ∧
      s.setConfirmations.contains (nonce, caller.sender) = false ∧
      t = { s with
        setConfirmations := s.setConfirmations.insert (nonce, caller.sender)
          ⟨nonce, caller.sender, a, signature⟩ } ∧
      r = .of "valset_confirm"
        [("orchestrator", toString caller.sender), ("valset_nonce", toString nonce)] := by
  simp only [confirm, Directory.validatorOf, Directory.signerOf, yieldsBind, yieldsGet,
    yieldsSomeOr, yieldsAddress, yieldsRequire, yieldsSet, yieldsPure] at h
  obtain ⟨v, _, ⟨_, _, ⟨rfl, rfl⟩, bound, rfl⟩, a, _, ⟨parsed, rfl⟩, _, _, ⟨rfl, rfl⟩, _, _,
    ⟨present, rfl⟩, expected, _, ⟨_, _, ⟨rfl, rfl⟩, keyed, rfl⟩, _, _, ⟨match_, rfl⟩, _, _,
    ⟨fresh, rfl⟩, _, _, rfl, rfl, rfl⟩ := h
  have same : expected = a := by simpa using match_
  subst same
  exact ⟨v, expected, bound, parsed, present, keyed, by simpa using fresh, rfl, rfl⟩

theorem storeDriftedYields {view : StakeView} {height : UInt64} {stored : Option SignerSet}
    (h : Yields (storeDrifted view height) s stored t) :
    ∃ c now, s.config = some c ∧ current view height s = .ok now ∧
      ((now.members = [] ∧ stored = none ∧ t = s) ∨
        (now.members ≠ [] ∧ drifted c (latest s) now = some false ∧ stored = none ∧ t = s) ∨
        (now.members ≠ [] ∧ drifted c (latest s) now = some true ∧ stored = some now ∧
          t = keep now s)) := by
  simp only [storeDrifted, yieldsBind, yieldsConfig, yieldsGet, yieldsOfExcept] at h
  obtain ⟨c, _, ⟨found, rfl⟩, _, _, ⟨rfl, rfl⟩, now, _, ⟨made, rfl⟩, last⟩ := h
  refine ⟨c, now, found, made, ?_⟩
  split at last
  · rename_i empty
    obtain ⟨rfl, rfl⟩ := yieldsPure.1 last
    exact .inl ⟨by simpa using empty, rfl, rfl⟩
  · rename_i filled
    have members : now.members ≠ [] := by simpa using filled
    obtain ⟨needed, _, asked, last⟩ := yieldsBind.1 last
    obtain ⟨decided, rfl⟩ := yieldsInRange.1 asked
    split at last
    · rename_i yes
      subst yes
      obtain ⟨_, _, kept, last⟩ := yieldsBind.1 last
      obtain ⟨rfl, rfl⟩ := yieldsPure.1 last
      exact .inr (.inr ⟨members, decided, rfl, yieldsSet.1 kept⟩)
    · rename_i no
      obtain ⟨rfl, rfl⟩ := yieldsPure.1 last
      exact .inr (.inl ⟨members, by simpa [no] using decided, rfl, rfl⟩)

end SignerSet

theorem Batching.confirmYields {nonce : UInt64} {token signer : String} {signature : Blob}
    (h : Yields (Batching.confirm caller nonce token signer signature) s r t) :
    ∃ v k a, s.validatorOf.get? caller.sender = some v ∧ Address.parse token = .ok k ∧
      Address.parse signer = .ok a ∧ s.batches.contains (k, nonce) = true ∧
      s.signerOf.get? v = some a ∧
      s.batchConfirmations.contains (k, nonce, caller.sender) = false ∧
      t = { s with
        batchConfirmations := s.batchConfirmations.insert (k, nonce, caller.sender)
          ⟨nonce, k, caller.sender, a, signature⟩ } ∧
      r = .of "confirm_batch"
        [("orchestrator", toString caller.sender), ("token_contract", toString k),
          ("batch_nonce", toString nonce)] := by
  simp only [Batching.confirm, Directory.validatorOf, Directory.signerOf, yieldsBind, yieldsGet,
    yieldsSomeOr, yieldsAddress, yieldsRequire, yieldsSet, yieldsPure] at h
  obtain ⟨v, _, ⟨_, _, ⟨rfl, rfl⟩, bound, rfl⟩, k, _, ⟨token, rfl⟩, a, _, ⟨parsed, rfl⟩, _, _,
    ⟨rfl, rfl⟩, _, _, ⟨present, rfl⟩, expected, _, ⟨_, _, ⟨rfl, rfl⟩, keyed, rfl⟩, _, _,
    ⟨match_, rfl⟩, _, _, ⟨fresh, rfl⟩, _, _, rfl, rfl, rfl⟩ := h
  have same : expected = a := by simpa using match_
  subst same
  exact ⟨v, k, expected, bound, token, parsed, present, keyed, by simpa using fresh, rfl, rfl⟩

theorem Contract.setUpYields {m : Setup} (h : Yields (Contract.setUp m) s r t) :
    ∃ admin, Account.validate m.admin = .ok admin ∧
      t = { m.stakes.foldl (fun s report => s.setPower ⟨report.validator⟩ report.power)
          { s with
            config := some (Contract.configOf admin m)
            staticValidators := m.staticValidators.foldl
              (fun table name => table.insert ⟨name⟩ ()) s.staticValidators } with
        observedNonce := 0, ethHeight := 0, latestSet := 0, lastTransfer := 0 } ∧
      r.messages = [] ∧ r.observations = [] := by
  simp only [Contract.setUp, Admin.checkDrift, Admin.checkBatchSize, yieldsBind, yieldsAccount,
    yieldsOfExcept, yieldsRequire, yieldsSetConfig, yieldsModify, yieldsPure] at h
  obtain ⟨admin, _, ⟨valid, rfl⟩, _, _, ⟨_, rfl⟩, _, _, ⟨_, rfl⟩, _, _, ⟨_, rfl⟩, _, _, rfl,
    _, u, enrolled, _, v, reported, _, _, rfl, rfl, rfl⟩ := h
  have first := Directory.enrolAllYields enrolled
  have second := Directory.reportYields reported
  subst first second
  exact ⟨admin, valid, rfl, rfl, rfl⟩

end TokenBridge
