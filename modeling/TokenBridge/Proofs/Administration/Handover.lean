import TokenBridge.Proofs.Outcome.Halting
import TokenBridge.Proofs.Journal
/-!
The office of the admin from hand to hand. A proposal that waits is the last deed that touched the hand-over, made by
the admin of now, so what is accepted was proposed seven days before at least and not overwritten or withdrawn since.
-/
namespace TokenBridge

open TokenBridge.Action

variable {s t u : Store} {block : Block} {caller : Caller} {r : Response} {order : Order}

def Store.admin? (s : Store) : Option Account := s.config.map Config.admin

def Message.handsOver : Message → Bool
  | .proposeAdmin _ | .acceptAdmin | .cancelProposal => true
  | _ => false

namespace Order

def handsOver : Order → Bool
  | .execute _ m => m.handsOver
  | _ => false

def accepts : Order → Bool
  | .execute _ .acceptAdmin => true
  | _ => false

theorem acceptsHandsOver {order : Order} (h : order.accepts = true) : order.handsOver = true := by
  unfold accepts at h
  split at h
  · rfl
  · cases h

end Order

structure ChargesKept (s t : Store) : Prop where
  config : t.config = s.config
  pendingAdmin : t.pendingAdmin = s.pendingAdmin
  staticValidators : t.staticValidators = s.staticValidators
  powers : t.powers = s.powers
  totalPower : t.totalPower = s.totalPower
  signerSets : t.signerSets = s.signerSets
  latestSet : t.latestSet = s.latestSet
  signerOf : t.signerOf = s.signerOf
  validatorOfSigner : t.validatorOfSigner = s.validatorOfSigner
  validatorOf : t.validatorOf = s.validatorOf
  orchestratorOf : t.orchestratorOf = s.orchestratorOf

theorem ChargesKept.here : ChargesKept s s := ⟨rfl, rfl, rfl, rfl, rfl, rfl, rfl, rfl, rfl, rfl, rfl⟩

theorem ChargesKept.trans (h : ChargesKept s t) (h' : ChargesKept t u) : ChargesKept s u where
  config := h'.config.trans h.config
  pendingAdmin := h'.pendingAdmin.trans h.pendingAdmin
  staticValidators := h'.staticValidators.trans h.staticValidators
  powers := h'.powers.trans h.powers
  totalPower := h'.totalPower.trans h.totalPower
  signerSets := h'.signerSets.trans h.signerSets
  latestSet := h'.latestSet.trans h.latestSet
  signerOf := h'.signerOf.trans h.signerOf
  validatorOfSigner := h'.validatorOfSigner.trans h.validatorOfSigner
  validatorOf := h'.validatorOf.trans h.validatorOf
  orchestratorOf := h'.orchestratorOf.trans h.orchestratorOf

theorem PassMoved.charges (h : PassMoved s t) : ChargesKept s t := by
  obtain ⟨_, _, _, _, _, _, _, _, _, _, ⟨_, _, _, _, rfl⟩, rfl⟩ := h
  exact ⟨rfl, rfl, rfl, rfl, rfl, rfl, rfl, rfl, rfl, rfl, rfl⟩

theorem PoolMoved.charges (h : PoolMoved s t) : ChargesKept s t := by
  obtain ⟨_, _, _, _, rfl⟩ := h
  exact ⟨rfl, rfl, rfl, rfl, rfl, rfl, rfl, rfl, rfl, rfl, rfl⟩

theorem EscrowMoved.charges (h : EscrowMoved s t) : ChargesKept s t := by
  obtain ⟨_, _, _, _, _, _, _, _, _, rfl⟩ := h
  exact ⟨rfl, rfl, rfl, rfl, rfl, rfl, rfl, rfl, rfl, rfl, rfl⟩

def Message.uncharged : Message → Bool
  | .submitClaim _ | .processAttestations | .confirmSet .. | .confirmBatch .. => true
  | m => m.escrows

theorem Contract.chargesKept {m : Message} (uncharged : m.uncharged = true)
    (h : Yields (Contract.execute block caller m) s r t) : ChargesKept s t := by
  cases m with
  | submitClaim claim =>
    obtain ⟨_, _, _, _, _, _, _, _, cast, pass, _⟩ := Observing.submitYields h
    obtain ⟨_, rfl⟩ := Voting.castYields cast
    have kept := (Observing.passMoves pass).charges
    exact ⟨kept.1, kept.2, kept.3, kept.4, kept.5, kept.6, kept.7, kept.8, kept.9, kept.10, kept.11⟩
  | processAttestations =>
    obtain ⟨_, pass, _⟩ := Observing.processYields h
    exact (Observing.passMoves pass).charges
  | confirmSet nonce signer signature =>
    obtain ⟨_, _, _, _, _, _, _, rfl, _⟩ := SignerSet.confirmYields h
    exact ⟨rfl, rfl, rfl, rfl, rfl, rfl, rfl, rfl, rfl, rfl, rfl⟩
  | confirmBatch nonce token signer signature =>
    obtain ⟨_, _, _, _, _, _, _, _, _, rfl, _⟩ := Batching.confirmYields h
    exact ⟨rfl, rfl, rfl, rfl, rfl, rfl, rfl, rfl, rfl, rfl, rfl⟩
  | sendToEth | receive | cancelTransfer | requestBatch | registerToken =>
    exact (Contract.escrowMoves rfl h).charges
  | _ => cases uncharged

inductive HandingOver (block : Block) (s : Store) (order : Order) (t : Store) : Prop where
  | kept (still : order.handsOver = false) (admin : t.admin? = s.admin?)
      (pendingAdmin : t.pendingAdmin = s.pendingAdmin)
  | proposed {caller : Caller} {a : Account} {executeAfter : UInt64}
      (order : order = .execute caller (.proposeAdmin a.name)) (admin : s.admin? = some caller.sender)
      (inRange : Counter.add? block.time Admin.timelock = some executeAfter)
      (after : t = { s with pendingAdmin := some ⟨a, executeAfter⟩ })
  | accepted {caller : Caller} {c : Config} {p : PendingAdmin} (order : order = .execute caller .acceptAdmin)
      (pending : s.pendingAdmin = some p) (proposed : caller.sender = p.account)
      (due : p.executeAfter.toNat ≤ block.time.toNat) (found : s.config = some c)
      (after : t = { s with config := some { c with admin := p.account }, pendingAdmin := none })
  | withdrawn {caller : Caller} (order : order = .execute caller .cancelProposal)
      (after : t = { s with pendingAdmin := none })

theorem ChargesKept.handingOver (kept : ChargesKept s t) (still : order.handsOver = false) :
    HandingOver block s order t :=
  .kept still (congrArg (Option.map Config.admin) kept.config) kept.pendingAdmin

theorem Contract.executeHandingOver {m : Message} (h : Yields (Contract.execute block caller m) s r t) :
    HandingOver block s (.execute caller m) t := by
  cases m with
  | submitClaim | processAttestations | confirmSet | confirmBatch | sendToEth | receive | cancelTransfer
  | requestBatch | registerToken => exact (Contract.chargesKept rfl h).handingOver rfl
  | setOrchestrator orchestrator signer =>
    obtain ⟨_, _, _, _, _, _, _, _, _, rfl, _⟩ := Directory.setOrchestratorYields h
    exact .kept rfl rfl rfl
  | addStaticValidator name =>
    obtain ⟨_, _, _, _, _, rfl, _⟩ := Directory.addStaticValidatorYields h
    exact .kept rfl rfl rfl
  | updatePowers reports =>
    obtain ⟨_, _, _, after, _⟩ := Directory.updatePowersYields h
    obtain ⟨_, _, same⟩ := Directory.reportMoves reports s
    rw [after, same]
    exact .kept rfl rfl rfl
  | requestSet =>
    obtain ⟨_, _, _, _, _, _, rfl, _⟩ := SignerSet.requestYields h
    exact .kept rfl rfl rfl
  | endBlock =>
    obtain ⟨_, _, _, _, pass, returned, stored, _⟩ := Housekeeping.endBlockYields h
    have kept := (Observing.passMoves pass).charges.trans (Batching.dissolvesMove returned).charges
    obtain ⟨_, _, _, _, ⟨_, _, rfl⟩ | ⟨_, _, _, rfl⟩ | ⟨_, _, _, rfl⟩⟩ := SignerSet.storeDriftedYields stored
    · exact kept.handingOver rfl
    · exact kept.handingOver rfl
    · exact .kept rfl (congrArg (Option.map Config.admin) kept.config) kept.pendingAdmin
  | updateConfig change =>
    obtain ⟨_, found, _, _, _, rfl, _, _⟩ := Admin.updateConfigYields h
    exact .kept rfl (by simp [Store.admin?, found, Admin.changed]) rfl
  | setMinimumFee fee =>
    obtain ⟨_, _, found, _, rfl, _⟩ := Admin.setMinimumFeeYields h
    exact .kept rfl (by simp [Store.admin?, found]) rfl
  | pause =>
    obtain ⟨_, found, _, rfl, _⟩ := Admin.pauseYields h
    exact .kept rfl (by simp [Store.admin?, found]) rfl
  | unpause =>
    obtain ⟨_, found, _, rfl, _⟩ := Admin.unpauseYields h
    exact .kept rfl (by simp [Store.admin?, found]) rfl
  | proposeAdmin name =>
    obtain ⟨_, a, _, found, admin, valid, inRange, rfl, _⟩ := Admin.proposeYields h
    have named : a = ⟨name⟩ := Account.validateName valid
    subst named
    exact .proposed rfl (by simp [Store.admin?, found, admin]) inRange rfl
  | acceptAdmin =>
    obtain ⟨_, _, pending, proposed, due, found, rfl, _⟩ := Admin.acceptYields h
    rw [Counter.below, ← Bool.not_eq_true, Nat.blt_eq, Nat.not_lt] at due
    exact .accepted rfl pending proposed due found rfl
  | cancelProposal =>
    obtain ⟨_, _, _, rfl, _⟩ := Admin.cancelProposalYields h
    exact .withdrawn rfl rfl

theorem Chain.laterHandingOver (later : order.setsUp = false)
    (h : Yields (Chain.action block order) s r t) : HandingOver block s order t := by
  cases order with
  | setUp => cases later
  | execute => exact Contract.executeHandingOver h
  | migrate =>
    obtain ⟨_, rfl⟩ := yieldsPure.1 h
    exact .kept rfl rfl rfl

structure Deed.Proposes (d : Deed) (a b : Account) : Prop where
  order : ∃ caller, d.order = .execute caller (.proposeAdmin b.name) ∧ caller.sender = a
  before : d.before.admin? = some a
  after : d.after.admin? = some a

/-- Of what had to do with the hand-over, the proposal of `b` by the admin `a` was carried out last, and `a` has held
the office since. -/
def Standing (deeds : List Deed) (a b : Account) (proposal : Deed) : Prop :=
  proposal.Proposes a b ∧ ∃ early between, deeds = early ++ proposal :: between ∧
    ∀ e ∈ between, e.order.handsOver = false ∧ e.before.admin? = some a ∧ e.after.admin? = some a

theorem Standing.concat {deeds : List Deed} {a b : Account} {proposal e : Deed}
    (h : Standing deeds a b proposal) (still : e.order.handsOver = false)
    (before : e.before.admin? = some a) (after : e.after.admin? = some a) :
    Standing (deeds ++ [e]) a b proposal := by
  obtain ⟨proposes, early, between, rfl, kept⟩ := h
  refine ⟨proposes, early, between ++ [e], by simp, fun f found => ?_⟩
  rcases List.mem_append.1 found with old | new
  · exact kept f old
  · cases List.mem_singleton.1 new
    exact ⟨still, before, after⟩

theorem Admin.secondsVal (time : UInt64) : (seconds time).toNat = time.toNat / 10 ^ 9 := by
  simp [seconds, UInt64.toNat_div]

theorem Admin.acceptEarly {p : PendingAdmin} (pending : s.pendingAdmin = some p)
    (proposed : caller.sender = p.account) (early : block.time.toNat < p.executeAfter.toNat) :
    ∃ left, Halts (accept block caller) s (.refused (.timelocked left)) s ∧
      (seconds block.time).toNat ≤ (seconds p.executeAfter).toNat ∧
      left.toNat = (seconds p.executeAfter).toNat - (seconds block.time).toNat := by
  have ordered : seconds block.time ≤ seconds p.executeAfter := by
    rw [UInt64.le_iff_toNat_le, secondsVal, secondsVal]
    exact Nat.div_le_div_right (Nat.le_of_lt early)
  refine ⟨_, ?_, UInt64.le_iff_toNat_le.1 ordered, UInt64.toNat_sub_of_le _ _ ordered⟩
  have below : Counter.below block.time p.executeAfter = true := by rw [Counter.below, Nat.blt_eq]; exact early
  simp [accept, pending, proposed, below, and_assoc]

namespace Journal

variable {j : Journal}

theorem Run.proposalStands (run : Run j) : ∀ p, j.store.pendingAdmin = some p →
    ∃ a proposal, j.store.admin? = some a ∧ Standing j.deeds a p.account proposal ∧
      p.executeAfter.toNat = proposal.block.time.toNat + 604800 * 10 ^ 9 := by
  refine Run.keeps ?setUp ?deed run
  case setUp =>
    intro block m r t yields p pending
    obtain ⟨admin, _, after, _, _⟩ := Contract.setUpYields yields
    obtain ⟨_, _, same⟩ := Directory.reportMoves m.stakes { Store.empty with
      config := some (Contract.configOf admin m)
      staticValidators := m.staticValidators.foldl
        (fun table name => table.insert ⟨name⟩ ()) Store.empty.staticValidators }
    rw [after, same] at pending
    cases pending
  case deed =>
    intro j block order r t _ ih later yields p pending
    cases Chain.laterHandingOver later yields with
    | kept still admin same =>
      obtain ⟨a, proposal, held, standing, waits⟩ := ih p (same.symm.trans pending)
      exact ⟨a, proposal, admin.trans held, standing.concat still held (admin.trans held), waits⟩
    | @proposed caller b executeAfter ordered admin inRange after =>
      have held : t.admin? = some caller.sender := by rw [after]; exact admin
      have proposes : Deed.Proposes ⟨j.store, block, order, r, t⟩ caller.sender b :=
        ⟨⟨caller, ordered, rfl⟩, admin, held⟩
      rw [after] at pending
      cases pending
      exact ⟨_, _, held, ⟨proposes, j.deeds, [], rfl, fun _ none => nomatch none⟩, Counter.addVal inRange⟩
    | accepted _ _ _ _ _ after =>
      subst after
      cases pending
    | withdrawn _ after =>
      subst after
      cases pending

/-- The office passes by acceptance alone, to the one whom its holder proposed at least seven days before, with
nothing about the hand-over done since. -/
theorem Run.handedOverInTime (run : Run j) :
    (∀ block order d, order.setsUp = false → (j.deliver block order).deeds = j.deeds ++ [d] →
      d.after.admin? ≠ d.before.admin? ∨ order.accepts = true →
      ∃ a b caller proposal, order = .execute caller .acceptAdmin ∧ caller.sender = b ∧
        d.before.admin? = some a ∧ d.after.admin? = some b ∧ Standing j.deeds a b proposal ∧
        proposal.block.time.toNat + 604800 * 10 ^ 9 ≤ block.time.toNat) ∧
    (∀ p, j.store.pendingAdmin = some p →
      ∃ a proposal, j.store.admin? = some a ∧ Standing j.deeds a p.account proposal ∧
        p.executeAfter.toNat = proposal.block.time.toNat + 604800 * 10 ^ 9) ∧
    ∀ block caller p, j.store.pendingAdmin = some p → caller.sender = p.account →
      block.time.toNat < p.executeAfter.toNat →
      ∃ left, Halts (Contract.execute block caller .acceptAdmin) j.store (.refused (.timelocked left)) j.store ∧
        (Admin.seconds block.time).toNat + left.toNat = (Admin.seconds p.executeAfter).toNat := by
  refine ⟨fun block order d later delivered touched => ?_, run.proposalStands,
    fun block caller p pending proposed early => ?_⟩
  · obtain ⟨before, _, _, yields⟩ := deliverDeed delivered
    rw [before] at touched ⊢
    cases Chain.laterHandingOver later yields with
    | kept still admin _ =>
      rcases touched with changed | accepts
      · exact absurd admin changed
      · rw [Order.acceptsHandsOver accepts] at still
        cases still
    | proposed ordered _ _ after =>
      subst ordered
      rw [after] at touched
      cases touched.resolve_left fun changed => changed rfl
    | @accepted caller c p ordered pending proposed due found after =>
      obtain ⟨a, proposal, held, standing, waits⟩ := run.proposalStands p pending
      rw [after]
      exact ⟨a, p.account, caller, proposal, ordered, proposed, held, rfl, standing, waits ▸ due⟩
    | withdrawn ordered after =>
      subst ordered
      rw [after] at touched
      cases touched.resolve_left fun changed => changed rfl
  · obtain ⟨left, halts, ordered, rest⟩ := Admin.acceptEarly pending proposed early
    exact ⟨left, halts, by omega⟩

def nominated : Journal :=
  opened.deliverAll
    [(⟨102, 3⟩, proposing "former"), (⟨103, 4⟩, .execute ⟨⟨"admin"⟩, []⟩ .cancelProposal),
      (⟨104, 9⟩, proposing "rival"), (⟨105, 8⟩, proposing "heir"),
      (⟨106, 7⟩, .execute ⟨⟨"validator"⟩, []⟩ (.setMinimumFee (.small 2)))]
where
  proposing (name : String) : Order := .execute ⟨⟨"admin"⟩, []⟩ (.proposeAdmin name)

theorem nominatedRun : Run nominated := openedRun.deliverAll (by decide)

def inherited : Journal :=
  nominated.deliver ⟨107, 604800000000008⟩ (.execute ⟨⟨"heir"⟩, []⟩ .acceptAdmin)

theorem inheritedDeeds :
    ∃ d ∈ inherited.deeds.getLast?, inherited.deeds = nominated.deeds ++ [d] ∧
      d.before.admin? = some ⟨"admin"⟩ ∧ d.after.admin? = some ⟨"heir"⟩ := by
  decide +kernel

theorem heirAccepts :
    Run nominated ∧ inherited.deeds ≠ nominated.deeds ∧ ∃ proposal,
      Standing nominated.deeds ⟨"admin"⟩ ⟨"heir"⟩ proposal ∧
        proposal.block.time.toNat + 604800 * 10 ^ 9 ≤ 604800000000008 := by
  obtain ⟨d, _, delivered, before, after⟩ := inheritedDeeds
  have changed : d.after.admin? ≠ d.before.admin? := by
    rw [before, after]
    decide
  obtain ⟨a, b, _, proposal, _, _, held, passed, standing, waited⟩ :=
    (Run.handedOverInTime nominatedRun).1 _ _ d rfl delivered (.inl changed)
  rw [before] at held
  rw [after] at passed
  cases held
  cases passed
  refine ⟨nominatedRun, ?_, proposal, standing, waited⟩
  rw [delivered]
  simp

end Journal

end TokenBridge
