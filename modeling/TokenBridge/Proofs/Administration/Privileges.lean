import TokenBridge.Proofs.Administration.Handover
import TokenBridge.Proofs.Deposits.Pairings
import TokenBridge.Proofs.Directory.Keys
/-!
What is left to a caller who is not the admin. Static validators set the minimum fee, ask for signer sets and bind
their own keys, the proposed admin takes office, and what is observed pairs tokens; all else that the admin has in
charge stays as it is.
-/
namespace TokenBridge

open TokenBridge.Action

variable {s t u : Store} {block : Block} {caller : Caller} {m : Message} {r : Response} {order : Order} {e : Effect}
  {p : Pairing} {os later : List Observation}

def Observation.entry? (o : Observation) : Option Pairing :=
  match o.claim.event, o.effect with
  | .tokenDeployed denom token .., .applied _ => some ⟨token, .native denom, true⟩
  | _, _ => none

structure RegistryGrown (os : List Observation) (s t : Store) : Prop where
  pairings : ∀ k p, t.pairings.get? k = some p ↔
    s.pairings.get? k = some p ∨ p ∈ os.filterMap Observation.entry? ∧ p.token = k
  tokenOf : ∀ name k, t.tokenOf.get? name = some k ↔
    s.tokenOf.get? name = some k ∨ ∃ p ∈ os.filterMap Observation.entry?, p.asset.key = name ∧ p.token = k

theorem RegistryKept.grown (h : RegistryKept s t) (quiet : os.filterMap Observation.entry? = []) :
    RegistryGrown os s t where
  pairings k p := by simp [h.pairings, quiet]
  tokenOf name k := by simp [h.tokenOf, quiet]

theorem RegistryKept.quiet (h : RegistryKept s t) : RegistryGrown [] s t := h.grown rfl

theorem RegistryGrown.trans (h : RegistryGrown os s t) (h' : RegistryGrown later t u) :
    RegistryGrown (os ++ later) s u where
  pairings k p := by
    rw [h'.pairings, h.pairings, List.filterMap_append, List.mem_append, or_and_right, or_assoc]
  tokenOf name k := by
    simp only [h'.tokenOf, h.tokenOf, List.filterMap_append, List.mem_append, or_and_right, exists_or, or_assoc]

theorem RegistryGrown.keep (h : RegistryGrown os s t) (kept : RegistryKept t u) : RegistryGrown os s u := by
  have later := h.trans kept.quiet
  rwa [List.append_nil] at later

theorem Registry.pairGrown {o : Observation} (entered : o.entry? = some p)
    (free : pairingFault? s p.token p.asset = none) : RegistryGrown [o] s (pair p s) := by
  obtain ⟨untaken, unused⟩ := pairingFree free
  constructor
  · intro k q
    simp only [pair, SortedMap.getInsert, List.filterMap_cons, List.filterMap_nil, entered, List.mem_singleton]
    split
    · rename_i same
      subst same
      simp only [untaken, Option.some.injEq, reduceCtorEq, false_or]
      exact ⟨fun same => ⟨same.symm, by rw [same]⟩, fun new => new.1.symm⟩
    · rename_i other
      refine ⟨.inl, fun found => found.resolve_right ?_⟩
      rintro ⟨rfl, same⟩
      exact other same
  · intro name k
    simp only [pair, SortedMap.getInsert, List.filterMap_cons, List.filterMap_nil, entered, List.mem_singleton,
      exists_eq_left]
    split
    · rename_i same
      subst same
      simp [unused]
    · rename_i other
      exact ⟨.inl, fun found => found.resolve_right fun new => other new.1⟩

theorem Batching.executedRegistry {token : Address} {nonce : UInt64} (done : Yields (executed token nonce) s e t) :
    RegistryKept s t := by
  rcases executedYields done with ⟨_, _, rfl⟩ | ⟨b, u, total, _, _, older, last⟩
  · exact .here
  · have cleared := (clearedMoves nonce older).books.registry
    split at last
    · obtain ⟨_, rfl⟩ := last
      exact cleared
    · rcases settleYields last with ⟨_, _, _, rfl, _⟩ | ⟨_, rfl, _⟩
      · exact ⟨cleared.tokenOf, cleared.pairings⟩
      · exact cleared

theorem Registry.depositedRegistry {nonce : UInt64} {token : Address} {amount : Amount} {receiver : String}
    (done : Yields (deposited nonce token amount receiver) s e t) : RegistryKept s t := by
  rcases depositedYields done with ⟨_, _, rfl⟩ | ⟨a, _, ⟨p, _, paid⟩ | ⟨_, _, rfl⟩⟩
  · exact .here
  · rcases payOutYields paid with ⟨_, _, _, rfl, _⟩ | ⟨_, rfl, _⟩ | ⟨_, rfl, _⟩
    · exact ⟨rfl, rfl⟩
    · exact .here
    · exact .here
  · exact ⟨rfl, rfl⟩

namespace Observing

theorem takeEffectGrown {o : Observation} (done : Yields (takeEffect block o.claim) s o.effect t) :
    RegistryGrown [o] s t := by
  have quiet (none : o.entry? = none) : [o].filterMap Observation.entry? = [] := by simp [none]
  unfold takeEffect at done
  split at done
  case h_1 _ event =>
    exact (Registry.depositedRegistry done).grown (quiet (by simp [Observation.entry?, event]))
  case h_2 _ event =>
    exact (Batching.executedRegistry done).grown (quiet (by simp [Observation.entry?, event]))
  case h_3 _ event =>
    obtain ⟨_, _, rfl⟩ := callExecutedYields done
    exact RegistryKept.grown ⟨rfl, rfl⟩ (quiet (by simp [Observation.entry?, event]))
  case h_4 _ denom token _ _ _ event =>
    rcases Registry.deployedYields done with ⟨fault, _, failed, rfl⟩ | ⟨free, applied, rfl⟩
    · exact RegistryKept.here.grown (quiet (by simp [Observation.entry?, event, failed]))
    · exact Registry.pairGrown (by simp [Observation.entry?, event, applied]) free
  case h_5 _ event =>
    obtain ⟨_, rfl⟩ := SignerSet.installedYields done
    exact RegistryKept.grown ⟨rfl, rfl⟩ (quiet (by simp [Observation.entry?, event]))

theorem passGrown {view : StakeView} (pass : Pass view block s os t) : RegistryGrown os s t := by
  induction pass with
  | rest s => exact RegistryKept.here.quiet
  | @observe s u t nonce fingerprint a e later _ _ _ effect _ ih =>
    have marked : RegistryKept s (mark nonce fingerprint a s) := ⟨rfl, rfl⟩
    have taken := takeEffectGrown
      (o := ⟨nonce, fingerprint, a.claim, a.votes.length, (mark nonce fingerprint a s).ethHeight, e⟩) effect
    exact (marked.quiet.trans taken).trans ih

end Observing

theorem Movement.grown (moved : Movement block s order r t)
    (unregistered : ∀ caller token cw20, order ≠ .execute caller (.registerToken token cw20)) :
    RegistryGrown r.observations s t := by
  cases moved with
  | administered _ _ moved _ unobserving =>
    exact moved.escrow.registry.grown (by rw [unobserving]; rfl)
  | reported _ after _ unobserving =>
    rw [after]
    exact (Directory.reportMoves order.reports s).escrow.registry.grown (by rw [unobserving]; rfl)
  | entered _ _ _ _ _ answer after =>
    rw [after]
    exact RegistryKept.grown ⟨rfl, rfl⟩ (by rw [answer]; rfl)
  | cancelled _ _ _ _ _ unobserving after =>
    rw [after]
    exact RegistryKept.grown ⟨rfl, rfl⟩ (by rw [unobserving]; rfl)
  | assembled _ _ made _ unobserving =>
    exact (Batching.assembleBooks made).registry.grown (by rw [unobserving]; rfl)
  | registered ordered => exact absurd ordered (unregistered _ _ _)
  | observed _ _ voted pass returned moved answers =>
    rw [answers.observations]
    have passed := voted.escrow.registry.quiet.trans (Observing.passGrown pass)
    exact (passed.keep (Batching.dissolvesMove returned).books.registry).keep moved.escrow.registry

inductive Charging (caller : Caller) (m : Message) (s t : Store) : Prop where
  | kept (kept : ChargesKept s t)
  | priced {c : Config} {fee : Amount} (message : m = .setMinimumFee fee)
      (static : s.isStatic caller.sender = true) (found : s.config = some c)
      (after : t = { s with config := some { c with minimumFee := fee } })
  | accepted {c : Config} {p : PendingAdmin} (message : m = .acceptAdmin) (pending : s.pendingAdmin = some p)
      (proposed : caller.sender = p.account) (found : s.config = some c)
      (after : t = { s with config := some { c with admin := p.account }, pendingAdmin := none })
  | stored {u : Store} {set : SignerSet}
      (asked : m = .endBlock ∨ m = .requestSet ∧ s.isStatic caller.sender = true) (kept : ChargesKept s u)
      (after : t = SignerSet.keep set u)
  | bound {orchestrator : Account} {signer : Address} (static : s.isStatic caller.sender = true)
      (staked : s.powers.getD caller.sender 0 ≠ 0) (unsigned : s.signerOf.get? caller.sender = none)
      (unled : s.validatorOf.get? orchestrator = none) (unused : s.validatorOfSigner.get? signer = none)
      (after : t = { s with
        signerOf := s.signerOf.insert caller.sender signer
        validatorOfSigner := s.validatorOfSigner.insert signer caller.sender
        validatorOf := s.validatorOf.insert orchestrator caller.sender
        orchestratorOf := s.orchestratorOf.insert caller.sender orchestrator })

theorem Contract.executeCharging {c : Config} (found : s.config = some c) (other : caller.sender ≠ c.admin)
    (h : Yields (Contract.execute block caller m) s r t) : Charging caller m s t := by
  -- A message for the admin alone has found the same configuration and compared the same sender.
  have barred {d : Config} (found' : s.config = some d) (admin : caller.sender = d.admin) : False := by
    rw [found] at found'
    cases found'
    exact other admin
  cases m with
  | submitClaim | processAttestations | confirmSet | confirmBatch | sendToEth | receive | cancelTransfer
  | requestBatch | registerToken => exact .kept (chargesKept rfl h)
  | setOrchestrator orchestrator signer =>
    obtain ⟨o, a, _, _, static, staked, unsigned, unled, unused, after, _⟩ := Directory.setOrchestratorYields h
    exact .bound static staked (SortedMap.absentIff.1 unsigned) (SortedMap.absentIff.1 unled)
      (SortedMap.absentIff.1 unused) after
  | addStaticValidator name =>
    obtain ⟨_, _, found', admin, _⟩ := Directory.addStaticValidatorYields h
    exact (barred found' admin).elim
  | updatePowers reports =>
    obtain ⟨_, found', admin, _⟩ := Directory.updatePowersYields h
    exact (barred found' admin).elim
  | requestSet =>
    obtain ⟨_, _, found', allowed, _, _, after, _⟩ := SignerSet.requestYields h
    exact .stored (.inr ⟨rfl, allowed.resolve_left (barred found')⟩) .here after
  | endBlock =>
    obtain ⟨_, _, _, _, pass, returned, stored, _⟩ := Housekeeping.endBlockYields h
    have kept := (Observing.passMoves pass).charges.trans (Batching.dissolvesMove returned).charges
    obtain ⟨_, _, _, _, ⟨_, _, rfl⟩ | ⟨_, _, _, rfl⟩ | ⟨_, _, _, after⟩⟩ := SignerSet.storeDriftedYields stored
    · exact .kept kept
    · exact .kept kept
    · exact .stored (.inl rfl) kept after
  | updateConfig change =>
    obtain ⟨_, found', admin, _⟩ := Admin.updateConfigYields h
    exact (barred found' admin).elim
  | setMinimumFee fee =>
    obtain ⟨_, static, found', _, after, _⟩ := Admin.setMinimumFeeYields h
    exact .priced rfl static found' after
  | pause =>
    obtain ⟨_, found', admin, _⟩ := Admin.pauseYields h
    exact (barred found' admin).elim
  | unpause =>
    obtain ⟨_, found', admin, _⟩ := Admin.unpauseYields h
    exact (barred found' admin).elim
  | proposeAdmin name =>
    obtain ⟨_, _, _, found', admin, _⟩ := Admin.proposeYields h
    exact (barred found' admin).elim
  | acceptAdmin =>
    obtain ⟨_, _, pending, proposed, _, found', after, _⟩ := Admin.acceptYields h
    exact .accepted rfl pending proposed found' after
  | cancelProposal =>
    obtain ⟨_, found', admin, _⟩ := Admin.cancelProposalYields h
    exact (barred found' admin).elim

def Directory.BindsCaller (caller : Caller) (s t : Store) : Prop :=
  s.isStatic caller.sender = true ∧ s.powers.getD caller.sender 0 ≠ 0 ∧ ∃ orchestrator signer,
    s.signerOf.get? caller.sender = none ∧ s.validatorOf.get? orchestrator = none ∧
    s.validatorOfSigner.get? signer = none ∧
    t.signerOf = s.signerOf.insert caller.sender signer ∧
    t.validatorOfSigner = s.validatorOfSigner.insert signer caller.sender ∧
    t.validatorOf = s.validatorOf.insert orchestrator caller.sender ∧
    t.orchestratorOf = s.orchestratorOf.insert caller.sender orchestrator

def Store.Proposed (s : Store) (account : Account) : Prop := ∃ p, s.pendingAdmin = some p ∧ p.account = account

structure Unprivileged (caller : Caller) (m : Message) (os : List Observation) (s t : Store) : Prop where
  staticValidators : t.staticValidators = s.staticValidators
  powers : t.powers = s.powers
  totalPower : t.totalPower = s.totalPower
  pendingAdmin : t.pendingAdmin = s.pendingAdmin ∨
    m = .acceptAdmin ∧ s.Proposed caller.sender ∧ t.pendingAdmin = none
  config : t.config = s.config ∨
    (∃ c fee, m = .setMinimumFee fee ∧ s.isStatic caller.sender = true ∧ s.config = some c ∧
      t.config = some { c with minimumFee := fee }) ∨
    ∃ c, m = .acceptAdmin ∧ s.Proposed caller.sender ∧ s.config = some c ∧
      t.config = some { c with admin := caller.sender }
  registry : RegistryGrown os s t
  signerSets : t.signerSets = s.signerSets ∧ t.latestSet = s.latestSet ∨
    m = .endBlock ∨ m = .requestSet ∧ s.isStatic caller.sender = true
  directory : DirectoryKept s t ∨ Directory.BindsCaller caller s t

theorem ChargesKept.directory (h : ChargesKept s t) : DirectoryKept s t :=
  ⟨h.staticValidators, h.signerOf, h.validatorOfSigner, h.validatorOf, h.orchestratorOf⟩

theorem Charging.unprivileged (h : Charging caller m s t) (registry : RegistryGrown os s t) :
    Unprivileged caller m os s t := by
  cases h with
  | kept kept =>
    exact ⟨kept.staticValidators, kept.powers, kept.totalPower, .inl kept.pendingAdmin, .inl kept.config, registry,
      .inl ⟨kept.signerSets, kept.latestSet⟩, .inl kept.directory⟩
  | priced message static found after =>
    subst after
    exact ⟨rfl, rfl, rfl, .inl rfl, .inr (.inl ⟨_, _, message, static, found, rfl⟩), registry, .inl ⟨rfl, rfl⟩,
      .inl ⟨rfl, rfl, rfl, rfl, rfl⟩⟩
  | @accepted c p message pending proposed found after =>
    have named : s.Proposed caller.sender := ⟨p, pending, proposed.symm⟩
    rw [← proposed] at after
    subst after
    exact ⟨rfl, rfl, rfl, .inr ⟨message, named, rfl⟩, .inr (.inr ⟨c, message, named, found, rfl⟩), registry,
      .inl ⟨rfl, rfl⟩, .inl ⟨rfl, rfl, rfl, rfl, rfl⟩⟩
  | stored asked kept after =>
    have directory := kept.directory
    subst after
    exact ⟨kept.staticValidators, kept.powers, kept.totalPower, .inl kept.pendingAdmin, .inl kept.config, registry,
      .inr asked, .inl ⟨directory.1, directory.2, directory.3, directory.4, directory.5⟩⟩
  | bound static staked unsigned unled unused after =>
    subst after
    exact ⟨rfl, rfl, rfl, .inl rfl, .inl rfl, registry, .inl ⟨rfl, rfl⟩,
      .inr ⟨static, staked, _, _, unsigned, unled, unused, rfl, rfl, rfl, rfl⟩⟩

theorem Unprivileged.here : Unprivileged caller m [] s s :=
  Charging.unprivileged (.kept .here) RegistryKept.here.quiet

theorem Contract.executeUnprivileged {c : Config} (found : s.config = some c) (other : caller.sender ≠ c.admin)
    (h : Yields (Contract.execute block caller m) s r t) : Unprivileged caller m r.observations s t := by
  refine (executeCharging found other h).unprivileged ((executeMovement h).grown fun _ token cw20 ordered => ?_)
  cases ordered
  obtain ⟨d, _, _, found', admin, _⟩ := Registry.registerTokenYields h
  rw [found] at found'
  cases found'
  exact other admin

namespace Journal

variable {j : Journal}

theorem Run.privilegesSeparated (run : Run j) (block : Block) (caller : Caller) (m : Message) :
    ∃ c d os, j.store.config = some c ∧ (j.deliver block (.execute caller m)).store.config = some d ∧
      d.bridgeId = c.bridgeId ∧ (j.deliver block (.execute caller m)).observations = j.observations ++ os ∧
      (caller.sender ≠ c.admin → Unprivileged caller m os j.store (j.deliver block (.execute caller m)).store) := by
  obtain ⟨c, found, _⟩ := run.signable.configured
  have last : Follows j (j.deliver block (.execute caller m)) := .later (.here j) block _ rfl
  obtain ⟨d, left, same⟩ := (last.setsLast run).bridge c found
  rcases deliverCases j block (.execute caller m) with ⟨r, t, yields, delivered⟩ | refused
  · rw [delivered] at left ⊢
    refine ⟨c, d, r.observations, found, left, same, by simp [observations], fun other => ?_⟩
    exact Contract.executeUnprivileged found other yields
  · rw [refused] at left ⊢
    exact ⟨c, d, [], found, left, same, by simp, fun _ => .here⟩

theorem pairedStores :
    opened.store.config.map Config.admin = some ⟨"admin"⟩ ∧ opened.store.pairings.get? .zero = none ∧
    paired.store.pairings.get? .zero = some ⟨.zero, .native "atom", true⟩ ∧
    opened.observations.length = 0 ∧ paired.observations.length = 1 := by
  decide +kernel

theorem pairedByObservation :
    Run opened ∧ opened.store.pairings.get? .zero = none ∧
    paired.store.pairings.get? .zero = some ⟨.zero, .native "atom", true⟩ ∧
    ∃ os, paired.observations = opened.observations ++ os ∧ os.length = 1 ∧
      Unprivileged ⟨⟨"orch"⟩, []⟩ (.submitClaim ⟨1, 50, .tokenDeployed "atom" .zero "Atom" "ATM" 6⟩) os opened.store
        paired.store := by
  obtain ⟨admin, unpaired, entered, before, after⟩ := pairedStores
  obtain ⟨c, _, os, found, _, _, observed, respects⟩ := Run.privilegesSeparated openedRun ⟨102, 3⟩ ⟨⟨"orch"⟩, []⟩
    (.submitClaim ⟨1, 50, .tokenDeployed "atom" .zero "Atom" "ATM" 6⟩)
  have observed : paired.observations = opened.observations ++ os := observed
  have single : os.length = 1 := by
    rw [observed, List.length_append] at after
    omega
  have other : (⟨"orch"⟩ : Account) ≠ c.admin := by
    rw [found, Option.map_some, Option.some.injEq] at admin
    rw [admin]
    decide
  exact ⟨openedRun, unpaired, entered, os, observed, single, respects other⟩

end Journal

end TokenBridge
