import TokenBridge.Proofs.Outcome.Observation
/-!
What messages leave alone. Effects of claims write neither votes nor stakes nor signers; the messages of
the office write neither votes nor stakes nor escrow, move no funds and observe nothing. Of these the admin's
write the configuration and the proposal alone. Taking a transfer in or giving one back writes the pool alone.
-/
namespace TokenBridge

open TokenBridge.Action

variable {s t u : Store} {block : Block} {caller : Caller} {r : Response} {e : Effect}

def PoolMoved (s t : Store) : Prop :=
  ∃ pool feeQueue batches batchConfirmations,
    t = { s with pool, feeQueue, batches, batchConfirmations }

def EffectMoved (s t : Store) : Prop :=
  ∃ executedCalls parked observedSet locked pairings tokenOf u,
    PoolMoved { s with executedCalls, parked, observedSet, locked, pairings, tokenOf } u ∧ t = u

def PassMoved (s t : Store) : Prop :=
  ∃ attestations observedNonce ethHeight,
    EffectMoved { s with attestations, observedNonce, ethHeight } t

def OfficeMoved (s t : Store) : Prop :=
  ∃ config pendingAdmin signerOf validatorOfSigner validatorOf orchestratorOf staticValidators
    signerSets latestSet setConfirmations batchConfirmations,
    t = { s with
      config, pendingAdmin, signerOf, validatorOfSigner, validatorOf, orchestratorOf
      staticValidators, signerSets, latestSet, setConfirmations, batchConfirmations }

def RecordsMoved (s t : Store) : Prop :=
  ∃ config pendingAdmin staticValidators signerSets latestSet setConfirmations batchConfirmations,
    t = { s with
      config, pendingAdmin, staticValidators, signerSets, latestSet, setConfirmations
      batchConfirmations }

inductive Enrolled (s t : Store) : Prop where
  | keys {validator orchestrator : Account} {signer : Address}
      (unsigned : s.signerOf.get? validator = none) (unled : s.validatorOf.get? orchestrator = none)
      (unused : s.validatorOfSigner.get? signer = none)
      (after : t = { s with
        signerOf := s.signerOf.insert validator signer
        validatorOfSigner := s.validatorOfSigner.insert signer validator
        validatorOf := s.validatorOf.insert orchestrator validator
        orchestratorOf := s.orchestratorOf.insert validator orchestrator })

def StakesMoved (s t : Store) : Prop :=
  ∃ powers totalPower, t = { s with powers, totalPower }

def EscrowMoved (s t : Store) : Prop :=
  ∃ lastTransfer pool feeQueue batches lastBatch batchConfirmations parked pairings tokenOf,
    t = { s with
      lastTransfer, pool, feeQueue, batches, lastBatch, batchConfirmations, parked, pairings, tokenOf }

theorem PoolMoved.here : PoolMoved s s := ⟨_, _, _, _, rfl⟩

theorem PoolMoved.trans (h : PoolMoved s t) (h' : PoolMoved t u) : PoolMoved s u := by
  obtain ⟨_, _, _, _, rfl⟩ := h
  obtain ⟨_, _, _, _, rfl⟩ := h'
  exact ⟨_, _, _, _, rfl⟩

theorem RecordsMoved.here : RecordsMoved s s := ⟨_, _, _, _, _, _, _, rfl⟩

theorem RecordsMoved.office (h : RecordsMoved s t) : OfficeMoved s t := by
  obtain ⟨_, _, _, _, _, _, _, rfl⟩ := h
  exact ⟨_, _, _, _, _, _, _, _, _, _, _, rfl⟩

theorem Enrolled.office (h : Enrolled s t) : OfficeMoved s t := by
  obtain ⟨_, _, _, rfl⟩ := h
  exact ⟨_, _, _, _, _, _, _, _, _, _, _, rfl⟩

structure BooksKept (s t : Store) : Prop where
  tokenOf : t.tokenOf = s.tokenOf
  pairings : t.pairings = s.pairings
  locked : t.locked = s.locked

theorem PoolMoved.books (h : PoolMoved s t) : BooksKept s t := by
  obtain ⟨_, _, _, _, rfl⟩ := h
  exact ⟨rfl, rfl, rfl⟩

theorem PoolMoved.effect (h : PoolMoved s t) : EffectMoved s t := ⟨_, _, _, _, _, _, t, h, rfl⟩

namespace Pool

theorem addAllKeeps (xs : List Transfer) (s : Store) :
    ∃ pool feeQueue, addAll xs s = { s with pool, feeQueue } := by
  induction xs generalizing s with
  | nil => exact ⟨_, _, rfl⟩
  | cons x rest ih => exact ih (add x s)

theorem removeAllKeeps (xs : List Transfer) (s : Store) :
    ∃ pool feeQueue, removeAll xs s = { s with pool, feeQueue } := by
  induction xs generalizing s with
  | nil => exact ⟨_, _, rfl⟩
  | cons x rest ih => exact ih (remove x s)

end Pool

namespace Batching

theorem dissolveMoves {token : Address} {nonce : UInt64} {v : PUnit}
    (h : Yields (dissolve token nonce) s v t) : PoolMoved s t := by
  obtain ⟨b, _, rfl⟩ := dissolveYields h
  obtain ⟨_, _, same⟩ := Pool.addAllKeeps b.transfers s
  rw [same]
  exact ⟨_, _, _, _, rfl⟩

theorem dissolvesMove {α : Type} {xs : List α} {token : α → Address} {nonce : α → UInt64}
    {v : PUnit} (h : Yields (forM xs fun x => dissolve (token x) (nonce x)) s v t) :
    PoolMoved s t :=
  forMKeeps h .here fun _ _ _ _ kept round => kept.trans (dissolveMoves round)

theorem clearedMoves {token : Address} {nonces : List UInt64} {v : PUnit} (nonce : UInt64)
    (older : Yields (forM nonces (dissolve token)) s v u) : PoolMoved s (discard token nonce u) := by
  obtain ⟨_, _, _, _, rfl⟩ := dissolvesMove older
  exact ⟨_, _, _, _, rfl⟩

theorem assembleMoves {token : Address} {limit : Nat} {height timeout : UInt64} {b : Batch}
    (made : Yields (assemble token limit height timeout) s b t) :
    ∃ lastBatch, PoolMoved { s with lastBatch } t := by
  obtain ⟨_, _, _, _, _, _, rfl⟩ := assembleYields made
  obtain ⟨_, _, removed⟩ := Pool.removeAllKeeps b.transfers s
  rw [removed]
  exact ⟨_, _, _, _, _, rfl⟩

theorem assembleBooks {token : Address} {limit : Nat} {height timeout : UInt64} {b : Batch}
    (made : Yields (assemble token limit height timeout) s b t) : BooksKept s t := by
  obtain ⟨_, _, _, _, _, rfl⟩ := assembleMoves made
  exact ⟨rfl, rfl, rfl⟩

theorem executedMoves {token : Address} {nonce : UInt64} (h : Yields (executed token nonce) s e t) :
    EffectMoved s t := by
  rcases executedYields h with ⟨_, _, rfl⟩ | ⟨b, u, total, _, _, older, last⟩
  · exact PoolMoved.here.effect
  · have cleared := clearedMoves nonce older
    split at last
    · obtain ⟨_, rfl⟩ := last
      exact cleared.effect
    · rcases settleYields last with ⟨_, locked, _, rfl, _⟩ | ⟨_, rfl, _⟩
      · obtain ⟨_, _, _, _, same⟩ := cleared
        rw [same]
        exact ⟨_, _, _, _, _, _, _, ⟨_, _, _, _, rfl⟩, rfl⟩
      · exact cleared.effect

end Batching

namespace Registry

theorem depositedMoves {nonce : UInt64} {token : Address} {amount : Amount} {receiver : String}
    (h : Yields (deposited nonce token amount receiver) s e t) : EffectMoved s t := by
  rcases depositedYields h with ⟨_, _, rfl⟩ | ⟨a, _, ⟨p, _, paid⟩ | ⟨_, _, rfl⟩⟩
  · exact PoolMoved.here.effect
  · rcases payOutYields paid with ⟨_, _, _, rfl, _⟩ | ⟨_, rfl, _⟩ | ⟨_, rfl, _⟩
    · exact ⟨_, _, _, _, _, _, _, .here, rfl⟩
    · exact PoolMoved.here.effect
    · exact PoolMoved.here.effect
  · exact ⟨_, _, _, _, _, _, _, .here, rfl⟩

theorem unparkAllMoves (token : Address) (deposits : List ParkedDeposit) (s : Store) :
    ∃ parked, unparkAll token deposits s = { s with parked } := by
  induction deposits generalizing s with
  | nil => exact ⟨_, rfl⟩
  | cons d rest ih => exact ih (unpark token d s)

theorem deployedMoves {denom : String} {token : Address} (h : Yields (deployed denom token) s e t) :
    EffectMoved s t := by
  rcases deployedYields h with ⟨_, _, _, rfl⟩ | ⟨_, _, rfl⟩
  · exact PoolMoved.here.effect
  · exact ⟨_, _, _, _, _, _, _, .here, rfl⟩

end Registry

theorem Observing.takeEffectMoves {claim : Claim} (h : Yields (takeEffect block claim) s e t) :
    EffectMoved s t := by
  unfold takeEffect at h
  split at h
  · exact Registry.depositedMoves h
  · exact Batching.executedMoves h
  · obtain ⟨_, _, rfl⟩ := callExecutedYields h
    exact ⟨_, _, _, _, _, _, _, .here, rfl⟩
  · exact Registry.deployedMoves h
  · obtain ⟨_, rfl⟩ := SignerSet.installedYields h
    exact ⟨_, _, _, _, _, _, _, .here, rfl⟩

theorem Observing.passMoves {view : StakeView} {os : List Observation} (pass : Pass view block s os t) :
    PassMoved s t := by
  induction pass with
  | rest s => exact ⟨_, _, _, PoolMoved.here.effect⟩
  | observe _ _ _ effect _ ih =>
    obtain ⟨_, _, _, _, _, _, _, ⟨_, _, _, _, rfl⟩, rfl⟩ := takeEffectMoves effect
    obtain ⟨_, _, _, _, _, _, _, _, _, _, ⟨_, _, _, _, rfl⟩, rfl⟩ := ih
    exact ⟨_, _, _, _, _, _, _, _, _, _, ⟨_, _, _, _, rfl⟩, rfl⟩

theorem SignerSet.storeDriftedMoves {view : StakeView} {height : UInt64} {set : Option SignerSet}
    (h : Yields (storeDrifted view height) s set t) : RecordsMoved s t := by
  obtain ⟨_, _, _, _, ⟨_, _, rfl⟩ | ⟨_, _, _, rfl⟩ | ⟨_, _, _, rfl⟩⟩ := storeDriftedYields h
  · exact .here
  · exact .here
  · exact ⟨_, _, _, _, _, _, _, rfl⟩

theorem Directory.reportMoves (reports : List StakeReport) (s : Store) :
    StakesMoved s
      (reports.foldl (fun s report => s.setPower ⟨report.validator⟩ report.power) s) := by
  induction reports generalizing s with
  | nil => exact ⟨_, _, rfl⟩
  | cons report rest ih =>
    obtain ⟨powers, totalPower, same⟩ := ih (s.setPower ⟨report.validator⟩ report.power)
    exact ⟨powers, totalPower, same⟩

def Message.administers : Message → Bool
  | .updateConfig _ | .setMinimumFee _ | .pause | .unpause | .proposeAdmin _ | .acceptAdmin
  | .cancelProposal => true
  | _ => false

theorem Contract.adminMoves {m : Message} (administers : m.administers = true)
    (h : Yields (Contract.execute block caller m) s r t) :
    (∃ config pendingAdmin, t = { s with config, pendingAdmin }) ∧
      r.messages = [] ∧ r.observations = [] := by
  cases m with
  | updateConfig change =>
    obtain ⟨_, _, _, _, _, rfl, silent, unobserving⟩ := Admin.updateConfigYields h
    exact ⟨⟨_, _, rfl⟩, silent, unobserving⟩
  | setMinimumFee fee =>
    obtain ⟨_, _, _, _, rfl, rfl⟩ := Admin.setMinimumFeeYields h
    exact ⟨⟨_, _, rfl⟩, rfl, rfl⟩
  | pause =>
    obtain ⟨_, _, _, rfl, rfl⟩ := Admin.pauseYields h
    exact ⟨⟨_, _, rfl⟩, rfl, rfl⟩
  | unpause =>
    obtain ⟨_, _, _, rfl, rfl⟩ := Admin.unpauseYields h
    exact ⟨⟨_, _, rfl⟩, rfl, rfl⟩
  | proposeAdmin name =>
    obtain ⟨_, _, _, _, _, _, _, rfl, rfl⟩ := Admin.proposeYields h
    exact ⟨⟨_, _, rfl⟩, rfl, rfl⟩
  | acceptAdmin =>
    obtain ⟨_, _, _, _, _, _, rfl, rfl⟩ := Admin.acceptYields h
    exact ⟨⟨_, _, rfl⟩, rfl, rfl⟩
  | cancelProposal =>
    obtain ⟨_, _, _, rfl, rfl⟩ := Admin.cancelProposalYields h
    exact ⟨⟨_, _, rfl⟩, rfl, rfl⟩
  | _ => cases administers

def Message.transfers : Message → Bool
  | .sendToEth .. | .receive .. | .cancelTransfer _ => true
  | _ => false

theorem Contract.transferMoves {m : Message} (transfers : m.transfers = true)
    (h : Yields (Contract.execute block caller m) s r t) :
    ∃ lastTransfer pool feeQueue, t = { s with lastTransfer, pool, feeQueue } := by
  cases m with
  | sendToEth destination fee =>
    obtain ⟨_, _, _, _, _, _, rfl⟩ := Pool.sendToEthYields h
    exact ⟨_, _, _, rfl⟩
  | receive sender amount payload =>
    obtain ⟨_, _, _, _, _, rfl⟩ := Pool.receiveYields h
    exact ⟨_, _, _, rfl⟩
  | cancelTransfer id =>
    obtain ⟨_, _, _, _, _, rfl, _⟩ := Pool.cancelYields h
    exact ⟨_, _, _, rfl⟩
  | _ => cases transfers

def Message.escrows : Message → Bool
  | .sendToEth .. | .receive .. | .cancelTransfer _ | .requestBatch .. | .registerToken .. => true
  | _ => false

theorem Contract.escrowMoves {m : Message} (escrows : m.escrows = true)
    (h : Yields (Contract.execute block caller m) s r t) : EscrowMoved s t := by
  cases m with
  | sendToEth | receive | cancelTransfer =>
    obtain ⟨_, _, _, rfl⟩ := Contract.transferMoves rfl h
    exact ⟨_, _, _, _, _, _, _, _, _, rfl⟩
  | requestBatch token limit =>
    obtain ⟨_, _, _, _, _, _, made, _, _⟩ := Batching.requestYields h
    obtain ⟨_, _, _, _, _, rfl⟩ := Batching.assembleMoves made
    exact ⟨_, _, _, _, _, _, _, _, _, rfl⟩
  | registerToken token cw20 =>
    obtain ⟨_, _, _, _, _, _, _, _, rfl, _⟩ := Registry.registerTokenYields h
    obtain ⟨_, unparked⟩ := Registry.unparkAllMoves _ _ _
    rw [unparked]
    exact ⟨_, _, _, _, _, _, _, _, _, rfl⟩
  | _ => cases escrows

def Message.office : Message → Bool
  | .updatePowers _ | .submitClaim _ | .processAttestations | .endBlock | .sendToEth .. | .receive ..
  | .cancelTransfer _ | .requestBatch .. | .registerToken .. => false
  | _ => true

theorem Contract.officeMoves {m : Message} (office : m.office = true)
    (h : Yields (Contract.execute block caller m) s r t) :
    (RecordsMoved s t ∨ Enrolled s t) ∧ r.messages = [] ∧ r.observations = [] := by
  cases m with
  | setOrchestrator orchestrator signer =>
    obtain ⟨_, _, _, _, _, _, unsigned, unled, unused, after, rfl⟩ := Directory.setOrchestratorYields h
    refine ⟨.inr (.keys ?_ ?_ ?_ after), rfl, rfl⟩
    · exact SortedMap.absentIff.1 unsigned
    · exact SortedMap.absentIff.1 unled
    · exact SortedMap.absentIff.1 unused
  | addStaticValidator name =>
    obtain ⟨_, _, _, _, _, rfl, rfl⟩ := Directory.addStaticValidatorYields h
    exact ⟨.inl ⟨_, _, _, _, _, _, _, rfl⟩, rfl, rfl⟩
  | requestSet =>
    obtain ⟨_, _, _, _, _, _, rfl, rfl⟩ := SignerSet.requestYields h
    exact ⟨.inl ⟨_, _, _, _, _, _, _, rfl⟩, rfl, rfl⟩
  | confirmSet nonce signer signature =>
    obtain ⟨_, _, _, _, _, _, _, rfl, rfl⟩ := SignerSet.confirmYields h
    exact ⟨.inl ⟨_, _, _, _, _, _, _, rfl⟩, rfl, rfl⟩
  | confirmBatch nonce token signer signature =>
    obtain ⟨_, _, _, _, _, _, _, _, _, rfl, rfl⟩ := Batching.confirmYields h
    exact ⟨.inl ⟨_, _, _, _, _, _, _, rfl⟩, rfl, rfl⟩
  | updateConfig | setMinimumFee | pause | unpause | proposeAdmin | acceptAdmin | cancelProposal =>
    obtain ⟨⟨_, _, rfl⟩, still⟩ := Contract.adminMoves rfl h
    exact ⟨.inl ⟨_, _, _, _, _, _, _, rfl⟩, still⟩
  | updatePowers | submitClaim | processAttestations | endBlock | sendToEth | receive
  | cancelTransfer | requestBatch | registerToken => cases office

end TokenBridge
