import TokenBridge.Proofs.Observation.Trace
/-!
Who voted for what, and who may vote. An order casts one vote at most, for the validator of a bound
orchestrator, or binds the fresh keys of one validator; nothing else touches votes, the nonces last voted at or
the directory.
-/
namespace TokenBridge

open TokenBridge.Action

variable {s t u : Store} {block : Block} {caller : Caller} {r : Response} {e : Effect}

structure Store.Bound (s : Store) (validator : Account) : Prop where
  orchestrator : ∃ o, s.orchestratorOf.get? validator = some o ∧ s.validatorOf.get? o = some validator
  signer : ∃ a, s.signerOf.get? validator = some a ∧ s.validatorOfSigner.get? a = some validator

def Store.voters (s : Store) (nonce : UInt64) (fingerprint : Word) : List Account :=
  ((s.attestations.get? (nonce, fingerprint)).map Attestation.votes).getD []

structure PollKept (s t : Store) : Prop where
  voters : t.voters = s.voters
  lastVoted : t.lastVoted = s.lastVoted
  signerOf : t.signerOf = s.signerOf
  validatorOfSigner : t.validatorOfSigner = s.validatorOfSigner
  validatorOf : t.validatorOf = s.validatorOf
  orchestratorOf : t.orchestratorOf = s.orchestratorOf

theorem PollKept.here : PollKept s s := ⟨rfl, rfl, rfl, rfl, rfl, rfl⟩

theorem PollKept.trans (h : PollKept s t) (h' : PollKept t u) : PollKept s u :=
  ⟨h'.voters.trans h.voters, h'.lastVoted.trans h.lastVoted, h'.signerOf.trans h.signerOf,
    h'.validatorOfSigner.trans h.validatorOfSigner, h'.validatorOf.trans h.validatorOf,
    h'.orchestratorOf.trans h.orchestratorOf⟩

theorem PoolMoved.poll (h : PoolMoved s t) : PollKept s t := by
  obtain ⟨_, _, _, _, rfl⟩ := h
  exact ⟨rfl, rfl, rfl, rfl, rfl, rfl⟩

theorem EffectMoved.poll (h : EffectMoved s t) : PollKept s t := by
  obtain ⟨_, _, _, _, _, _, u, ⟨_, _, _, _, rfl⟩, rfl⟩ := h
  exact ⟨rfl, rfl, rfl, rfl, rfl, rfl⟩

theorem RecordsMoved.poll (h : RecordsMoved s t) : PollKept s t := by
  obtain ⟨_, _, _, _, _, _, _, rfl⟩ := h
  exact ⟨rfl, rfl, rfl, rfl, rfl, rfl⟩

theorem StakesMoved.poll (h : StakesMoved s t) : PollKept s t := by
  obtain ⟨_, _, rfl⟩ := h
  exact ⟨rfl, rfl, rfl, rfl, rfl, rfl⟩

namespace Observing

theorem markPoll {nonce : UInt64} {fingerprint : Word} {a : Attestation}
    (here : s.attestations.get? (nonce, fingerprint) = some a) :
    PollKept s (mark nonce fingerprint a s) := by
  refine ⟨?_, rfl, rfl, rfl, rfl, rfl⟩
  funext n p
  simp only [Store.voters, mark, SortedMap.getInsert]
  split
  · rename_i same
    rw [← same, here]
    rfl
  · rfl

theorem passPoll {view : StakeView} {os : List Observation} (pass : Pass view block s os t) :
    PollKept s t := by
  induction pass with
  | rest s => exact .here
  | observe _ _ won effect _ ih =>
    obtain ⟨here, _, _⟩ := winnerFound won
    exact ((markPoll here).trans (takeEffectMoves effect).poll).trans ih

end Observing

inductive Polling (block : Block) (s t : Store) : Prop where
  | kept (kept : PollKept s t)
  | voted {orchestrator validator : Account} {policy : ConflictPolicy} {claim : Claim}
      {a : Attestation} {u : Store} (bound : s.validatorOf.get? orchestrator = some validator)
      (sound : claim.fault? = none)
      (cast : Yields (Voting.cast policy validator claim block.height) s a u) (kept : PollKept u t)
  | enrolled (enrolled : Enrolled s t)

theorem Contract.executePolling {m : Message} (h : Yields (Contract.execute block caller m) s r t) :
    Polling block s t := by
  cases office : m.office with
  | true =>
    rcases (Contract.officeMoves office h).1 with records | enrolled
    · exact .kept records.poll
    · exact .enrolled enrolled
  | false =>
    cases m with
    | submitClaim claim =>
      obtain ⟨v, c, a, u, os, sound, bound, _, cast, pass, _⟩ := Observing.submitYields h
      exact .voted bound sound cast (Observing.passPoll pass)
    | processAttestations =>
      obtain ⟨os, pass, _⟩ := Observing.processYields h
      exact .kept (Observing.passPoll pass)
    | endBlock =>
      obtain ⟨os, u, v, stored, pass, returned, kept, _⟩ := Housekeeping.endBlockYields h
      have passed := (Observing.passPoll pass).trans (Batching.dissolvesMove returned).poll
      exact .kept (passed.trans (SignerSet.storeDriftedMoves kept).poll)
    | updatePowers reports =>
      obtain ⟨_, _, _, rfl, _⟩ := Directory.updatePowersYields h
      exact .kept (Directory.reportMoves reports s).poll
    | sendToEth | receive | cancelTransfer | requestBatch | registerToken =>
      obtain ⟨_, _, _, _, _, _, _, _, _, rfl⟩ := Contract.escrowMoves rfl h
      exact .kept ⟨rfl, rfl, rfl, rfl, rfl, rfl⟩
    | setOrchestrator | addStaticValidator | requestSet | confirmSet | confirmBatch | updateConfig
    | setMinimumFee | pause | unpause | proposeAdmin | acceptAdmin | cancelProposal => cases office

theorem Chain.laterPolling {order : Order} (later : order.setsUp = false)
    (h : Yields (Chain.action block order) s r t) : Polling block s t := by
  cases order with
  | setUp => cases later
  | execute => exact Contract.executePolling h
  | migrate =>
    obtain ⟨rfl, rfl⟩ := yieldsPure.1 h
    exact .kept .here

theorem Contract.setUpPoll {m : Setup} (h : Yields (Contract.setUp m) s r t) : PollKept s t := by
  obtain ⟨_, _, rfl, _, _⟩ := Contract.setUpYields h
  obtain ⟨_, _, same⟩ := Directory.reportMoves m.stakes _
  rw [same]
  exact ⟨rfl, rfl, rfl, rfl, rfl, rfl⟩

end TokenBridge
