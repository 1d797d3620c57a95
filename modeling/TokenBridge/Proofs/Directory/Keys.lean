import TokenBridge.Proofs.Encoding.Addresses
import TokenBridge.Proofs.Signing.Confirmed
/-!
The keys of validators. The four tables of the directory hold one set of triples of a validator, its orchestrator and
its signer, each of which tells the other two. Only static validators bind keys, what is bound stays, and the
directory answers every question about a triple with it.
-/
namespace TokenBridge

open TokenBridge.Action

variable {s t u : Store} {block : Block} {caller : Caller} {r : Response} {order : Order}

structure DirectoryKept (s t : Store) : Prop where
  staticValidators : t.staticValidators = s.staticValidators
  signerOf : t.signerOf = s.signerOf
  validatorOfSigner : t.validatorOfSigner = s.validatorOfSigner
  validatorOf : t.validatorOf = s.validatorOf
  orchestratorOf : t.orchestratorOf = s.orchestratorOf

theorem DirectoryKept.trans (h : DirectoryKept s t) (h' : DirectoryKept t u) : DirectoryKept s u :=
  ⟨h'.staticValidators.trans h.staticValidators, h'.signerOf.trans h.signerOf,
    h'.validatorOfSigner.trans h.validatorOfSigner, h'.validatorOf.trans h.validatorOf,
    h'.orchestratorOf.trans h.orchestratorOf⟩

theorem PoolMoved.directory (h : PoolMoved s t) : DirectoryKept s t := by
  obtain ⟨_, _, _, _, rfl⟩ := h
  exact ⟨rfl, rfl, rfl, rfl, rfl⟩

theorem PassMoved.directory (h : PassMoved s t) : DirectoryKept s t := by
  obtain ⟨_, _, _, _, _, _, _, _, _, _, ⟨_, _, _, _, rfl⟩, rfl⟩ := h
  exact ⟨rfl, rfl, rfl, rfl, rfl⟩

theorem StakesMoved.directory (h : StakesMoved s t) : DirectoryKept s t := by
  obtain ⟨_, _, rfl⟩ := h
  exact ⟨rfl, rfl, rfl, rfl, rfl⟩

inductive Directing (s t : Store) : Prop where
  | kept (kept : DirectoryKept s t)
  | listed {v : Account} (valid : Account.validate v.name = .ok v)
      (after : t = { s with staticValidators := s.staticValidators.insert v () })
  | bound {k : Answers.Keys} (valid : Account.validate k.orchestrator.name = .ok k.orchestrator)
      (static : s.isStatic k.validator = true) (unsigned : s.signerOf.get? k.validator = none)
      (unled : s.validatorOf.get? k.orchestrator = none)
      (unused : s.validatorOfSigner.get? k.signer = none)
      (after : t = { s with
        signerOf := s.signerOf.insert k.validator k.signer
        validatorOfSigner := s.validatorOfSigner.insert k.signer k.validator
        validatorOf := s.validatorOf.insert k.orchestrator k.validator
        orchestratorOf := s.orchestratorOf.insert k.validator k.orchestrator })

theorem Account.validateSelf {name : String} {a : Account} (h : validate name = .ok a) :
    validate a.name = .ok a := by
  have named := validateName h
  subst named
  exact h

theorem SignerSet.storeDriftedDirectory {view : StakeView} {height : UInt64} {set : Option SignerSet}
    (h : Yields (storeDrifted view height) s set t) : DirectoryKept s t := by
  obtain ⟨_, _, _, _, ⟨_, _, rfl⟩ | ⟨_, _, _, rfl⟩ | ⟨_, _, _, rfl⟩⟩ := storeDriftedYields h
  · exact ⟨rfl, rfl, rfl, rfl, rfl⟩
  · exact ⟨rfl, rfl, rfl, rfl, rfl⟩
  · exact ⟨rfl, rfl, rfl, rfl, rfl⟩

theorem Contract.executeDirecting {m : Message} (h : Yields (Contract.execute block caller m) s r t) :
    Directing s t := by
  cases m with
  | setOrchestrator orchestrator signer =>
    obtain ⟨o, a, valid, _, static, _, unsigned, unled, unused, after, _⟩ := Directory.setOrchestratorYields h
    exact .bound (k := ⟨caller.sender, o, a⟩) (Account.validateSelf valid) static (SortedMap.absentIff.1 unsigned)
      (SortedMap.absentIff.1 unled) (SortedMap.absentIff.1 unused) after
  | addStaticValidator name =>
    obtain ⟨_, v, _, _, valid, after, _⟩ := Directory.addStaticValidatorYields h
    exact .listed (Account.validateSelf valid) after
  | updatePowers reports =>
    obtain ⟨_, _, _, rfl, _⟩ := Directory.updatePowersYields h
    exact .kept (Directory.reportMoves reports s).directory
  | submitClaim claim =>
    obtain ⟨_, _, _, u, _, _, _, _, cast, pass, _⟩ := Observing.submitYields h
    have voted : DirectoryKept s u := by
      obtain ⟨_, rfl⟩ := Voting.castYields cast
      exact ⟨rfl, rfl, rfl, rfl, rfl⟩
    exact .kept (voted.trans (Observing.passMoves pass).directory)
  | processAttestations =>
    obtain ⟨_, pass, _⟩ := Observing.processYields h
    exact .kept (Observing.passMoves pass).directory
  | requestSet =>
    obtain ⟨_, _, _, _, _, _, rfl, _⟩ := SignerSet.requestYields h
    exact .kept ⟨rfl, rfl, rfl, rfl, rfl⟩
  | confirmSet nonce signer signature =>
    obtain ⟨_, _, _, _, _, _, _, rfl, _⟩ := SignerSet.confirmYields h
    exact .kept ⟨rfl, rfl, rfl, rfl, rfl⟩
  | endBlock =>
    obtain ⟨_, _, _, _, pass, returned, stored, _⟩ := Housekeeping.endBlockYields h
    have passed := (Observing.passMoves pass).directory.trans (Batching.dissolvesMove returned).directory
    exact .kept (passed.trans (SignerSet.storeDriftedDirectory stored))
  | sendToEth | receive | cancelTransfer | requestBatch | registerToken =>
    obtain ⟨_, _, _, _, _, _, _, _, _, rfl⟩ := Contract.escrowMoves rfl h
    exact .kept ⟨rfl, rfl, rfl, rfl, rfl⟩
  | confirmBatch nonce token signer signature =>
    obtain ⟨_, _, _, _, _, _, _, _, _, rfl, _⟩ := Batching.confirmYields h
    exact .kept ⟨rfl, rfl, rfl, rfl, rfl⟩
  | updateConfig | setMinimumFee | pause | unpause | proposeAdmin | acceptAdmin | cancelProposal =>
    obtain ⟨⟨_, _, rfl⟩, _⟩ := Contract.adminMoves rfl h
    exact .kept ⟨rfl, rfl, rfl, rfl, rfl⟩

theorem Chain.laterDirecting (later : order.setsUp = false)
    (h : Yields (Chain.action block order) s r t) : Directing s t := by
  cases order with
  | setUp => cases later
  | execute => exact Contract.executeDirecting h
  | migrate =>
    obtain ⟨_, rfl⟩ := yieldsPure.1 h
    exact .kept ⟨rfl, rfl, rfl, rfl, rfl⟩

structure Named (s : Store) : Prop where
  validators : ∀ v, s.isStatic v = true → Account.validate v.name = .ok v
  orchestrators : ∀ o v, s.validatorOf.get? o = some v → Account.validate o.name = .ok o

theorem Named.empty (validators : s.staticValidators = ∅) (orchestrators : s.validatorOf = ∅) : Named s where
  validators v static := by
    rw [Store.isStatic, validators] at static
    cases static
  orchestrators o v led := by
    rw [orchestrators] at led
    cases led

theorem Store.staticInsert {v w : Account} :
    ({ s with staticValidators := s.staticValidators.insert v () } : Store).isStatic w = true ↔
      v = w ∨ s.isStatic w = true := by
  simp only [isStatic, SortedMap.contains, SortedMap.getInsert]
  split
  · simp_all
  · simp_all

theorem Named.list {v : Account} (h : Named s) (valid : Account.validate v.name = .ok v) :
    Named { s with staticValidators := s.staticValidators.insert v () } where
  validators w static := by
    rcases Store.staticInsert.1 static with rfl | old
    · exact valid
    · exact h.validators w old
  orchestrators := h.orchestrators

theorem Directing.named (h : Named s) (directing : Directing s t) : Named t := by
  cases directing with
  | kept kept =>
    refine ⟨fun v static => h.validators v ?_, ?_⟩
    · rw [Store.isStatic, kept.staticValidators] at static
      exact static
    · rw [kept.validatorOf]
      exact h.orchestrators
  | listed valid after =>
    subst after
    exact h.list valid
  | bound valid _ _ _ _ after =>
    subst after
    refine ⟨h.validators, fun o v led => ?_⟩
    rw [SortedMap.getInsert] at led
    split at led
    · rename_i same
      rw [← same]
      exact valid
    · exact h.orchestrators o v led

structure Directed (s : Store) : Prop where
  signed : ∀ a v, s.validatorOfSigner.get? a = some v → s.signerOf.get? v = some a
  whole : ∀ v, (∃ a, s.signerOf.get? v = some a) ↔ ∃ o, s.orchestratorOf.get? v = some o
  static : ∀ v a, s.signerOf.get? v = some a → s.isStatic v = true

theorem Directing.directed (h : Directed s) (directing : Directing s t) : Directed t := by
  cases directing with
  | kept kept =>
    constructor
    · rw [kept.validatorOfSigner, kept.signerOf]
      exact h.signed
    · rw [kept.signerOf, kept.orchestratorOf]
      exact h.whole
    · rw [kept.signerOf]
      unfold Store.isStatic
      rw [kept.staticValidators]
      exact h.static
  | listed _ after =>
    subst after
    exact ⟨h.signed, h.whole, fun v a signs => Store.staticInsert.2 (.inr (h.static v a signs))⟩
  | @bound k _ static unsigned _ _ after =>
    subst after
    refine ⟨fun a v signed => ?_, fun v => ?_, fun v a signs => ?_⟩
    · simp only [SortedMap.getInsert] at signed ⊢
      split at signed
      · rename_i same
        cases signed
        rw [if_pos rfl, same]
      · -- A validator that has a signer already is not the one whose keys are bound now.
        have old := h.signed a v signed
        rw [if_neg, old]
        rintro rfl
        rw [unsigned] at old
        cases old
    · simp only [SortedMap.getInsert]
      split
      · simp
      · exact h.whole v
    · rw [SortedMap.getInsert] at signs
      split at signs
      · rename_i same
        rw [← same]
        exact static
      · exact h.static v a signs

theorem BindingsLast.here : BindingsLast s s := ⟨fun _ _ bound => bound, fun _ _ bound => bound⟩

theorem BindingsLast.trans (h : BindingsLast s t) (h' : BindingsLast t u) : BindingsLast s u :=
  ⟨fun o v bound => h'.led o v (h.led o v bound), fun v a bound => h'.signs v a (h.signs v a bound)⟩

structure Store.Binds (s : Store) (k : Answers.Keys) : Prop where
  signs : s.signerOf.get? k.validator = some k.signer
  signed : s.validatorOfSigner.get? k.signer = some k.validator
  leads : s.orchestratorOf.get? k.validator = some k.orchestrator
  led : s.validatorOf.get? k.orchestrator = some k.validator

theorem Store.Binds.alone {k l : Answers.Keys} (h : s.Binds k) (h' : s.Binds l)
    (same : k.validator = l.validator ∨ k.orchestrator = l.orchestrator ∨ k.signer = l.signer) : k = l := by
  have validator : k.validator = l.validator := by
    rcases same with same | same | same
    · exact same
    · exact Option.some.inj (h.led.symm.trans (same ▸ h'.led))
    · exact Option.some.inj (h.signed.symm.trans (same ▸ h'.signed))
  have orchestrator : k.orchestrator = l.orchestrator :=
    Option.some.inj (h.leads.symm.trans (validator ▸ h'.leads))
  have signer : k.signer = l.signer := Option.some.inj (h.signs.symm.trans (validator ▸ h'.signs))
  cases k
  cases l
  simp_all

namespace Answers

variable {k : Keys}

theorem accountOf {a : Account} (valid : Account.validate a.name = .ok a) : account a.name = .ok a := by
  rw [account, valid]
  rfl

theorem addressOf {written : String} {a : Address} (parsed : Address.parse written = .ok a) :
    address written = .ok a := by
  rw [address, parsed]
  rfl

theorem keysBound (bound : s.Binds k) : keys s k.validator = .ok k := by
  rw [keys, bound.signs, bound.leads]
  rfl

theorem keysAnswered (bound : s.Binds k) (validator : Account.validate k.validator.name = .ok k.validator)
    (orchestrator : Account.validate k.orchestrator.name = .ok k.orchestrator) {written : String}
    (signer : Address.parse written = .ok k.signer) :
    keysByValidator s k.validator.name = .ok k ∧ keysByOrchestrator s k.orchestrator.name = .ok k ∧
      keysBySigner s written = .ok k := by
  refine ⟨?_, ?_, ?_⟩
  · rw [keysByValidator, accountOf validator]
    exact keysBound bound
  · rw [keysByOrchestrator, accountOf orchestrator]
    show (do keys s (← someOr (.notFound .validator) (s.validatorOf.get? k.orchestrator))) = Except.ok k
    rw [bound.led]
    exact keysBound bound
  · rw [keysBySigner, addressOf signer]
    show (do keys s (← someOr (.notFound .validator) (s.validatorOfSigner.get? k.signer))) = Except.ok k
    rw [bound.signed]
    exact keysBound bound

end Answers

theorem Directory.enrolAllNamed {names : List String} {v : PUnit} (h : Named s)
    (enrolled : Yields (enrolAll names) s v t) : Named t := by
  refine forMKeeps enrolled h fun name _ u w named round => ?_
  simp only [yieldsBind, yieldsAccount, enrol, yieldsModify] at round
  obtain ⟨a, _, ⟨valid, rfl⟩, rfl⟩ := round
  exact named.list (Account.validateSelf valid)

theorem Contract.setUpNamed {m : Setup} (h : Yields (Contract.setUp m) .empty r t) : Named t := by
  simp only [Contract.setUp, Admin.checkDrift, Admin.checkBatchSize, yieldsBind, yieldsAccount,
    yieldsOfExcept, yieldsRequire, yieldsSetConfig, yieldsModify, yieldsPure] at h
  obtain ⟨_, _, ⟨_, rfl⟩, _, _, ⟨_, rfl⟩, _, _, ⟨_, rfl⟩, _, _, ⟨_, rfl⟩, _, _, rfl,
    _, u, enrolled, _, v, reported, _, _, rfl, rfl, rfl⟩ := h
  have listed := Directory.enrolAllNamed (.empty rfl rfl) enrolled
  have same := Directory.reportYields reported
  obtain ⟨_, _, moved⟩ := Directory.reportMoves m.stakes u
  subst same
  rw [moved]
  exact ⟨listed.validators, listed.orchestrators⟩

namespace Journal

variable {i j : Journal}

theorem Run.named (run : Run j) : Named j.store := by
  refine Run.keeps ?setUp ?deed run
  case setUp =>
    intro block m r t yields
    exact Contract.setUpNamed yields
  case deed =>
    intro j block order r t _ inv later yields
    exact (Chain.laterDirecting later yields).named inv

theorem Run.directed (run : Run j) : Directed j.store := by
  refine Run.keeps ?setUp ?deed run
  case setUp =>
    intro block m r t yields
    obtain ⟨_, _, signerOf, validatorOfSigner, _, orchestratorOf⟩ := Contract.setUpPoll yields
    refine ⟨?_, ?_, ?_⟩
    · rw [validatorOfSigner]
      exact fun _ _ => nofun
    · rw [signerOf, orchestratorOf]
      exact fun _ => ⟨nofun, nofun⟩
    · rw [signerOf]
      exact fun _ _ => nofun
  case deed =>
    intro j block order r t _ inv later yields
    exact (Chain.laterDirecting later yields).directed inv

theorem Follows.bindingsLast (h : Follows i j) (run : Run i) : BindingsLast i.store j.store := by
  refine Follows.keeps h run .here ?_
  intro j block order r t _ last later yields
  exact last.trans (Chain.laterPolling later yields).bindingsLast

theorem Follows.binds (h : Follows i j) (run : Run i) {k : Answers.Keys} (bound : i.store.Binds k) :
    j.store.Binds k := by
  have last := h.bindingsLast run
  have after := h.run run
  have signs := last.signs _ _ bound.signs
  have led := last.led _ _ bound.led
  exact ⟨signs, after.signersApart _ _ signs, (after.oneToOne _ _).1 led, led⟩

theorem Run.binds (run : Run j) {v o : Account} {a : Address} (signs : j.store.signerOf.get? v = some a)
    (leads : j.store.orchestratorOf.get? v = some o) : j.store.Binds ⟨v, o, a⟩ :=
  ⟨signs, run.signersApart v a signs, leads, (run.oneToOne o v).2 leads⟩

/-- Validator, orchestrator and signer tell each other for good, and the directory answers when asked by any of the
three. -/
theorem Run.keysBoundForGood (run : Run j) :
    (∀ v a, j.store.signerOf.get? v = some a ↔ j.store.validatorOfSigner.get? a = some v) ∧
    (∀ o v, j.store.validatorOf.get? o = some v ↔ j.store.orchestratorOf.get? v = some o) ∧
    (∀ v a, j.store.signerOf.get? v = some a → ∃ o, j.store.Binds ⟨v, o, a⟩) ∧
    (∀ v o, j.store.orchestratorOf.get? v = some o → ∃ a, j.store.Binds ⟨v, o, a⟩) ∧
    (∀ k l, j.store.Binds k → j.store.Binds l →
      k.validator = l.validator ∨ k.orchestrator = l.orchestrator ∨ k.signer = l.signer → k = l) ∧
    ∀ k, j.store.Binds k → j.store.isStatic k.validator = true ∧
      (∀ later, Follows j later → later.store.Binds k) ∧
      Answers.keysByValidator j.store k.validator.name = .ok k ∧
      Answers.keysByOrchestrator j.store k.orchestrator.name = .ok k ∧
      Answers.keysBySigner j.store (toString k.signer) = .ok k ∧
      ∀ written, Address.parse written = .ok k.signer → Answers.keysBySigner j.store written = .ok k := by
  have directed := run.directed
  have named := run.named
  refine ⟨fun v a => ⟨run.signersApart v a, directed.signed a v⟩, run.oneToOne, fun v a signs => ?_,
    fun v o leads => ?_, fun k l bound bound' => bound.alone bound', fun k bound => ?_⟩
  · obtain ⟨o, leads⟩ := (directed.whole v).1 ⟨a, signs⟩
    exact ⟨o, run.binds signs leads⟩
  · obtain ⟨a, signs⟩ := (directed.whole v).2 ⟨o, leads⟩
    exact ⟨a, run.binds signs leads⟩
  · have static := directed.static _ _ bound.signs
    have answered {written : String} (parsed : Address.parse written = .ok k.signer) :=
      Answers.keysAnswered bound (named.validators _ static) (named.orchestrators _ _ bound.led) parsed
    obtain ⟨byValidator, byOrchestrator, bySigner⟩ := answered (Address.parsePrint k.signer)
    exact ⟨static, fun later follows => follows.binds run bound, byValidator, byOrchestrator, bySigner,
      fun written parsed => (answered parsed).2.2⟩

def crossed : Journal :=
  (start.deliver ⟨100, 1⟩ (.setUp
    ⟨"admin", "bridge", ["alpha", "beta"], [⟨"alpha", 40⟩, ⟨"beta", 30⟩], none, none, none, none, none, none,
      none⟩)).deliverAll
    [(⟨101, 2⟩, .execute ⟨⟨"alpha"⟩, []⟩
        (.setOrchestrator "beta" "0x00000000000000000000000000000000000000AB")),
      (⟨102, 3⟩, .execute ⟨⟨"beta"⟩, []⟩
        (.setOrchestrator "alpha" "00000000000000000000000000000000000000cd"))]

theorem crossedRun : Run crossed := Run.deliverAll (.setUp (by decide)) (by decide)

def crossedKeys : Answers.Keys := ⟨⟨"alpha"⟩, ⟨"beta"⟩, ⟨List.replicate 19 0 ++ [171], by decide⟩⟩

theorem crossedBinds : crossed.store.Binds crossedKeys := by
  obtain ⟨signs, leads⟩ :
      crossed.store.signerOf.get? crossedKeys.validator = some crossedKeys.signer ∧
        crossed.store.orchestratorOf.get? crossedKeys.validator = some crossedKeys.orchestrator := by
    decide +kernel
  exact crossedRun.binds signs leads

theorem crossedBoundForGood :
    Run crossed ∧ Address.parse "0X00000000000000000000000000000000000000aB" = .ok crossedKeys.signer ∧
      Answers.keysByOrchestrator crossed.store "beta" = .ok crossedKeys ∧
      Answers.keysBySigner crossed.store "0X00000000000000000000000000000000000000aB" = .ok crossedKeys ∧
      (∀ later, Follows crossed later → later.store.Binds crossedKeys) ∧
      ∀ k, crossed.store.Binds k → k.orchestrator = ⟨"beta"⟩ → k.validator = ⟨"alpha"⟩ := by
  have parsed : Address.parse "0X00000000000000000000000000000000000000aB" = .ok crossedKeys.signer := by
    decide +kernel
  obtain ⟨_, _, _, _, alone, answered⟩ := Run.keysBoundForGood crossedRun
  obtain ⟨_, last, _, byOrchestrator, _, bySigner⟩ := answered crossedKeys crossedBinds
  refine ⟨crossedRun, parsed, byOrchestrator, bySigner _ parsed, last, fun k bound same => ?_⟩
  rw [alone k crossedKeys bound crossedBinds (.inr (.inl same))]
  rfl

end Journal

end TokenBridge
