import TokenBridge.Proofs.Observation.Applied
import TokenBridge.Proofs.Voting.Ballot
import TokenBridge.Proofs.Voting.Electorate
/-!
How the votes stand while orchestrators report one history. From the cursor on the votes for a claim are those of
all who have come to it; of the votes before the cursor only what they have decided matters.
-/
namespace TokenBridge

open TokenBridge.Action

variable {start s t u : Store} {history : History} {done further : Account → Nat} {block : Block}
  {c : Claim} {v o : Account} {n : UInt64} {p : Word} {a : Attestation} {e : Effect}
  {policy : ConflictPolicy} {os : List Observation}

def onward (done : Account → Nat) (o : Account) : Account → Nat :=
  fun q => if q = o then done q + 1 else done q

theorem leOnward (q : Account) : done q ≤ onward done o q := by
  unfold onward
  split <;> omega

theorem Store.Decided.still {n : Nat} (decided : s.Decided done n) : s.Decided (onward done o) n :=
  decided.mono (fun _ q _ => leOnward q) (Nat.le_refl n)

theorem Store.OneToOne.sameIff {q w : Account} (inv : s.OneToOne) (leads : s.orchestratorOf.get? v = some o)
    (leads' : s.orchestratorOf.get? w = some q) : q = o ↔ w = v := by
  constructor
  · rintro rfl
    have acts := (inv q v).2 leads
    rw [(inv q w).2 leads'] at acts
    exact Option.some.inj acts
  · rintro rfl
    rw [leads] at leads'
    exact (Option.some.inj leads').symm

structure ElectorateKept (s t : Store) : Prop extends StakesKept s t where
  config : t.config = s.config
  batches : t.batches = s.batches
  validatorOf : t.validatorOf = s.validatorOf
  orchestratorOf : t.orchestratorOf = s.orchestratorOf

theorem ElectorateKept.trans (h : ElectorateKept s t) (h' : ElectorateKept t u) : ElectorateKept s u :=
  ⟨h.toStakesKept.trans h'.toStakesKept, h'.config.trans h.config, h'.batches.trans h.batches,
    h'.validatorOf.trans h.validatorOf, h'.orchestratorOf.trans h.orchestratorOf⟩

theorem ElectorateKept.decided {n : Nat} (h : ElectorateKept s t) : t.Decided done n ↔ s.Decided done n := by
  simp only [Store.Decided, Store.reached, StakeView.stakeOfAll, StakeView.stored, h.totalPower, h.powers,
    h.orchestratorOf]

/-- The votes where every orchestrator `o` has submitted the first `done o` claims of the history. A validator
that has never voted is one whose submissions have all come too late. -/
structure Tally (start : Store) (history : History) (done : Account → Nat) (s : Store) : Prop
    extends Orderly s where
  kept : ElectorateKept start s
  inside : ∀ v o, s.orchestratorOf.get? v = some o → done o ≤ history.claims.length
  members : ∀ k a, s.attestations.get? k = some a → a.claim ∈ history.claims
  within : ∀ n p, ∀ v ∈ s.voters n p, ∃ o, s.orchestratorOf.get? v = some o ∧ n.toNat ≤ done o
  voted : ∀ c ∈ history.claims, ∀ v o, s.orchestratorOf.get? v = some o →
    s.observedNonce.toNat ≤ c.nonce.toNat → c.nonce.toNat ≤ done o → v ∈ s.voters c.nonce c.fingerprint
  last : ∀ v o n, s.orchestratorOf.get? v = some o → s.lastVoted.get? v = some n → n.toNat = done o
  late : ∀ v o, s.orchestratorOf.get? v = some o → s.lastVoted.get? v = none →
    done o < max s.observedNonce.toNat 1
  decided : ∀ n, 1 ≤ n → n ≤ s.observedNonce.toNat → s.Decided done n

structure Claim.Bearable (c : Claim) : Prop where
  scope : c.event.ScopeFits
  next : c.nonce.toNat + 1 < UInt64.size

theorem Store.Unbatched.bears {event : Event} (unbatched : s.Unbatched) (fits : event.ScopeFits) :
    s.Bears event := by
  cases event with
  | batchExecuted nonce token =>
    intro b found
    rw [unbatched] at found
    cases found
  | callExecuted scope nonce => exact fits
  | deposit => trivial
  | tokenDeployed => trivial
  | signersUpdated => trivial

namespace Tally

variable (tally : Tally start history done s)
include tally

theorem found (found : s.attestations.get? (n, p) = some a) :
    a.claim ∈ history.claims ∧ a.claim.nonce = n ∧ a.claim.fingerprint = p :=
  ⟨tally.members _ a found, (tally.attested n p a found).2⟩

theorem foundAt (member : c ∈ history.claims) (found : s.attestations.get? (c.nonce, p) = some a) :
    a.claim = c ∧ p = c.fingerprint := by
  obtain ⟨inside, atNonce, ofContent⟩ := tally.found found
  have same := history.alone inside member atNonce
  exact ⟨same, by rw [← ofContent, same]⟩

theorem observedAt (member : c ∈ history.claims) (past : c.nonce.toNat ≤ s.observedNonce.toNat) :
    ∃ a, s.attestations.get? (c.nonce, c.fingerprint) = some a ∧ a.observed = true := by
  obtain ⟨_, inv⟩ := tally.inOrder
  obtain ⟨p, d, decided⟩ := inv.decided c.nonce (history.positive member) past
  obtain ⟨a, found, observed, _⟩ := Store.observedIff.1 decided
  obtain ⟨_, rfl⟩ := tally.foundAt member found
  exact ⟨a, found, observed⟩

theorem unobserved (later : s.observedNonce.toNat < c.nonce.toNat)
    (found : s.attestations.get? (c.nonce, p) = some a) : a.observed = false := by
  obtain ⟨_, inv⟩ := tally.inOrder
  by_contra observed
  have past := (inv.upToCursor _ _ _ (Store.observedIff.2 ⟨a, found, by simpa using observed, rfl⟩)).2
  omega

theorem votersReached (member : c ∈ history.claims)
    (pending : s.observedNonce.toNat ≤ c.nonce.toNat) :
    (s.voters c.nonce c.fingerprint).Perm (s.reached done c.nonce.toNat) := by
  refine (List.perm_ext_iff_of_nodup (tally.disciplined.distinct ..) Store.reachedDistinct).2 fun v => ?_
  rw [Store.memReached]
  constructor
  · exact tally.within _ _ v
  · rintro ⟨o, leads, come⟩
    exact tally.voted c member v o leads pending come

theorem decides (powered : s.totalPower ≠ 0) (member : c ∈ history.claims)
    (pending : s.observedNonce.toNat ≤ c.nonce.toNat) :
    s.Decides c.nonce c.fingerprint ↔ s.Decided done c.nonce.toNat := by
  have stake : StakeView.stored.stakeOfAll s (s.voters c.nonce c.fingerprint) =
      StakeView.stored.stakeOfAll s (s.reached done c.nonce.toNat) :=
    ((tally.votersReached member pending).map _).sum_eq
  rw [Store.Decides, StakeView.stored.shareDecides s _ powered, stake]
  rfl

theorem turn (leads : s.orchestratorOf.get? v = some o) :
    (Voting.lastNonce s v).toNat = done o ∨
      s.lastVoted.get? v = none ∧ done o + 1 < max s.observedNonce.toNat 1 := by
  cases before : s.lastVoted.get? v with
  | some n =>
    refine .inl ?_
    simp only [Voting.lastNonce, before, Option.getD_some]
    exact tally.last v o n leads before
  | none =>
    have late := tally.late v o leads before
    have behind := Counter.cappedSubVal s.observedNonce 1
    by_cases last : done o + 1 < max s.observedNonce.toNat 1
    · exact .inr ⟨rfl, last⟩
    · refine .inl ?_
      simp only [Voting.lastNonce, before, Option.getD_none]
      have one : (1 : UInt64).toNat = 1 := rfl
      omega

theorem allows (member : c ∈ history.claims) : Voting.contentRefusal? s policy c.nonce
    (s.attestations.get? (c.nonce, c.fingerprint)) = none := by
  by_cases past : c.nonce.toNat ≤ s.observedNonce.toNat
  · obtain ⟨a, found, observed⟩ := tally.observedAt member past
    exact (Voting.openPast past).2 ⟨a, found, observed⟩
  · refine (Voting.openAhead (Nat.lt_of_not_le past)).2 (.inr ?_)
    by_cases some : s.AttestedAt c.nonce
    · obtain ⟨p, a, found⟩ := some
      obtain ⟨_, rfl⟩ := tally.foundAt member found
      exact .inr ⟨a, found⟩
    · exact .inl some

theorem accepts (leads : s.orchestratorOf.get? v = some o) (member : c ∈ history.claims)
    (next : c.nonce.toNat = done o + 1) (inTurn : (Voting.lastNonce s v).toNat = done o)
    (height : UInt64) : ∃ a, Voting.attestation s policy v c height = .ok a := by
  refine Voting.attestationIff.2 ⟨fun voted => ?_, by omega, tally.allows member⟩
  obtain ⟨q, leads', come⟩ := tally.within _ _ v voted
  rw [leads] at leads'
  cases leads'
  omega

theorem insideOnward (member : c ∈ history.claims) (next : c.nonce.toNat = done o + 1) :
    ∀ w q, s.orchestratorOf.get? w = some q → onward done o q ≤ history.claims.length := by
  intro w q leads
  have old := tally.inside w q leads
  have counted := history.counted member
  unfold onward
  split
  · rename_i same
    rw [same]
    omega
  · exact old

theorem cast (leads : s.orchestratorOf.get? v = some o) (member : c ∈ history.claims)
    (next : c.nonce.toNat = done o + 1) (h : Yields (Voting.cast policy v c block.height) s a t) :
    Tally start history (onward done o) t := by
  have acts := (tally.oneToOne o v).2 leads
  have inserted := (Voting.castYields h).2
  refine ⟨tally.toOrderly.cast (history.sound c member) acts h, ?kept, ?inside, ?members, ?within, ?voted,
    ?last, ?late, ?decided⟩
  case voted =>
    intro d listed w q leads' pending come
    rw [inserted] at leads' pending
    have old := tally.voted d listed w q leads' pending
    refine (Voting.castMem h).2 ?_
    unfold onward at come
    split at come
    · rename_i same
      rcases Nat.lt_or_eq_of_le come with before | here
      · exact .inl (old (Nat.lt_succ_iff.1 before))
      · rw [same] at here
        obtain rfl := history.alone listed member (UInt64.toNat_inj.1 (here.trans next.symm))
        exact .inr ⟨(tally.oneToOne.sameIff leads leads').1 same, rfl, rfl⟩
    · exact .inl (old come)
  case within =>
    intro n p w voted
    rw [inserted]
    rcases (Voting.castMem h).1 voted with old | ⟨rfl, rfl, _⟩
    · obtain ⟨q, leads', come⟩ := tally.within n p w old
      exact ⟨q, leads', come.trans (leOnward q)⟩
    · exact ⟨o, leads, by rw [onward, if_pos rfl, next]⟩
  case members =>
    intro k b found
    rcases Voting.castClaims h found with same | ⟨d, old, same⟩
    · rw [same]
      exact member
    · rw [← same]
      exact tally.members k d old
  case last =>
    intro w q n leads' found
    rw [inserted] at leads' found
    have same := tally.oneToOne.sameIff leads leads'
    rw [SortedMap.getInsert] at found
    unfold onward
    split at found
    · rename_i here
      rw [if_pos (same.2 here.symm), same.2 here.symm, ← next, Option.some.inj found]
    · rename_i apart
      rw [if_neg fun here => apart (same.1 here).symm]
      exact tally.last w q n leads' found
  case late =>
    intro w q leads' none
    rw [inserted] at leads' none ⊢
    have same := tally.oneToOne.sameIff leads leads'
    rw [SortedMap.getInsert] at none
    split at none
    · cases none
    · rename_i apart
      rw [onward, if_neg fun here => apart (same.1 here).symm]
      exact tally.late w q leads' none
  case inside =>
    rw [inserted]
    exact tally.insideOnward member next
  case kept =>
    rw [inserted]
    exact ⟨⟨tally.kept.powers, tally.kept.totalPower⟩, tally.kept.config, tally.kept.batches,
      tally.kept.validatorOf, tally.kept.orchestratorOf⟩
  case decided =>
    intro n first past
    rw [inserted] at past ⊢
    exact (tally.decided n first past).still

theorem skip (leads : s.orchestratorOf.get? v = some o) (member : c ∈ history.claims)
    (next : c.nonce.toNat = done o + 1) (silent : s.lastVoted.get? v = none)
    (tooLate : done o + 1 < max s.observedNonce.toNat 1) : Tally start history (onward done o) s := by
  refine ⟨tally.toOrderly, tally.kept, tally.insideOnward member next, tally.members, ?within, ?voted,
    ?last, ?late, ?decided⟩
  case within =>
    intro n p w voted
    obtain ⟨q, leads', come⟩ := tally.within n p w voted
    exact ⟨q, leads', come.trans (leOnward q)⟩
  case voted =>
    -- The claim lies before the cursor, and before it nothing is said of votes.
    intro d listed w q leads' pending come
    refine tally.voted d listed w q leads' pending ?_
    have positive := history.positive listed
    unfold onward at come
    split at come
    · rename_i same
      subst same
      omega
    · exact come
  case last =>
    intro w q n leads' found
    rw [onward, if_neg]
    · exact tally.last w q n leads' found
    · intro same
      obtain rfl := (tally.oneToOne.sameIff leads leads').1 same
      rw [silent] at found
      cases found
  case late =>
    intro w q leads' none
    unfold onward
    split
    · rename_i same
      rw [same]
      exact tooLate
    · exact tally.late w q leads' none
  case decided =>
    intro n first past
    exact (tally.decided n first past).still

theorem unbatched (unbatched : start.Unbatched) : s.Unbatched := by
  unfold Store.Unbatched
  rw [tally.kept.batches]
  exact unbatched

theorem wins {nonce : UInt64} (powered : s.totalPower ≠ 0)
    (next : Counter.next? s.observedNonce = some nonce)
    (won : Observing.winner .stored s nonce s.totalPower = some (p, a)) :
    a.claim ∈ history.claims ∧ a.claim.nonce = nonce ∧ s.Decided done nonce.toNat := by
  obtain ⟨found, _, share⟩ := Observing.winnerFound won
  have succ := Counter.nextVal next
  obtain ⟨member, rfl, rfl⟩ := tally.found found
  refine ⟨member, rfl, (tally.decides powered member (by omega)).1 ?_⟩
  rw [Store.Decides, Store.votersOf found]
  exact share

theorem observe {nonce : UInt64} (unbatched : start.Unbatched) (powered : s.totalPower ≠ 0)
    (next : Counter.next? s.observedNonce = some nonce)
    (won : Observing.winner .stored s nonce s.totalPower = some (p, a))
    (effect : Yields (Observing.takeEffect block a.claim) (Observing.mark nonce p a s) e t) :
    Tally start history done t := by
  obtain ⟨member, atNonce, decided⟩ := tally.wins powered next won
  have succ := Counter.nextVal next
  have one : Observing.Pass .stored block s [_] t := .observe powered next won effect (.rest t)
  have poll := Observing.passPoll one
  have unbatched : (Observing.mark nonce p a s).Unbatched := tally.unbatched unbatched
  obtain ⟨_, _, _, _, _, _, after⟩ := Observing.takeEffectBooks unbatched effect
  have kept : ElectorateKept s t := by
    rw [after]
    exact ⟨⟨rfl, rfl⟩, rfl, rfl, rfl, rfl⟩
  have cursor : t.observedNonce = nonce := by rw [after]; rfl
  refine ⟨tally.toOrderly.pass one, ?kept, ?inside, ?members, ?within, ?voted, ?last, ?late, ?decided⟩
  case kept => exact tally.kept.trans kept
  case inside =>
    rw [poll.orchestratorOf]
    exact tally.inside
  case members =>
    intro k b here
    obtain ⟨d, old, same⟩ := Observing.passClaims one here
    rw [← same]
    exact tally.members k d old
  case within =>
    rw [poll.voters, poll.orchestratorOf]
    exact tally.within
  case voted =>
    intro d listed w q leads pending come
    rw [poll.orchestratorOf] at leads
    rw [cursor] at pending
    rw [poll.voters]
    exact tally.voted d listed w q leads (by omega) come
  case last =>
    rw [poll.orchestratorOf, poll.lastVoted]
    exact tally.last
  case late =>
    intro w q leads none
    rw [poll.orchestratorOf] at leads
    rw [poll.lastVoted] at none
    have late := tally.late w q leads none
    rw [cursor]
    omega
  case decided =>
    intro n first past
    rw [cursor] at past
    rw [kept.decided]
    rcases Nat.lt_or_eq_of_le past with before | rfl
    · exact tally.decided n first (by omega)
    · exact decided

omit tally

theorem pass (tally : Tally start history done s) (unbatched : start.Unbatched)
    (pass : Observing.Pass .stored block s os t) : Tally start history done t := by
  induction pass with
  | rest => exact tally
  | observe powered next won effect _ ih => exact ih (tally.observe unbatched powered next won effect)

theorem passApplied {height : UInt64} {es : List Effect} (tally : Tally start history done s)
    (unbatched : start.Unbatched) (atHeight : block.height = height)
    (applied : Observing.Applied height (history.claims.take s.observedNonce.toNat) start es s)
    (pass : Observing.Pass .stored block s os t) :
    Observing.Applied height (history.claims.take t.observedNonce.toNat) start
      (es ++ os.map Observation.effect) t := by
  induction pass generalizing es with
  | rest => simpa using applied
  | @observe s u t nonce p a e later powered next won effect _ ih =>
    obtain ⟨member, atNonce, _⟩ := tally.wins powered next won
    have succ := Counter.nextVal next
    have cursor : u.observedNonce = nonce := (Observing.takeEffectMoves effect).votes.observedNonce
    rw [← atNonce] at succ
    have marked : (Observing.mark nonce p a s).Unbatched := tally.unbatched unbatched
    have one := applied.snoc atHeight marked rfl effect
    rw [← history.takeNext member succ, atNonce, ← cursor] at one
    rw [List.map_cons, List.append_cons]
    exact ih (tally.observe unbatched powered next won effect) one

theorem quiet (tally : Tally start history done s) (powered : s.totalPower ≠ 0)
    (undue : Observing.due? .stored s = none) : ¬ s.Decided done (s.observedNonce.toNat + 1) := by
  intro decided
  obtain ⟨v, o, leads, come⟩ := decided.someone powered
  have room := tally.inside v o leads
  obtain ⟨c, member, atNonce⟩ : ∃ c ∈ history.claims, c.nonce.toNat = s.observedNonce.toNat + 1 :=
    history.claimAt (by omega) (by omega)
  rw [← atNonce] at decided come
  have voted := tally.voted c member v o leads (by omega) come
  obtain ⟨a, found, _⟩ := Store.memVoters.1 voted
  have fresh := tally.unobserved (by omega) found
  have share := (tally.decides powered member (by omega)).2 decided
  rw [Store.Decides, Store.votersOf found] at share
  cases won : Observing.winner .stored s c.nonce s.totalPower with
  | some w =>
    have due := Observing.dueIff.2 ⟨powered, Counter.nextIff.2 atNonce, won⟩
    rw [undue] at due
    cases due
  | none =>
    unfold Observing.winner at won
    rw [Option.map_eq_none_iff, List.find?_eq_none] at won
    have lost := won ((c.nonce, c.fingerprint), a)
      (List.mem_filter.2 ⟨SortedMap.getIff.1 found, decide_eq_true rfl⟩)
    simp [fresh, share] at lost

theorem completes {halt : Halt} (tally : Tally start history done s) (unbatched : start.Unbatched)
    (fits : ∀ c ∈ history.claims, start.Decided done c.nonce.toNat → c.Bearable) :
    ¬ Halts (Observing.observe .stored block) s halt t := by
  intro halts
  obtain ⟨os, u, pass, stopped⟩ := Observing.observeHalts.1 halts
  have tally := tally.pass unbatched pass
  rcases Observing.observeNextHalts.1 stopped with ⟨powered, last, _, _⟩ | ⟨n, p, b, due, effect⟩
  · have here : ¬ u.observedNonce.toNat + 1 < UInt64.size := fun room => by
      rw [Counter.next?, if_pos room] at last
      cases last
    have first : 1 ≤ u.observedNonce.toNat := by
      have size : 1 < UInt64.size := by decide
      omega
    have decided := tally.decided u.observedNonce.toNat first (Nat.le_refl _)
    obtain ⟨v, o, leads, come⟩ := decided.someone powered
    obtain ⟨c, member, atCursor⟩ := history.claimAt first (come.trans (tally.inside v o leads))
    rw [← atCursor] at here decided
    exact here (fits c member (tally.kept.decided.1 decided)).next
  · obtain ⟨powered, next, won⟩ := Observing.dueIff.1 due
    obtain ⟨member, rfl, decided⟩ := tally.wins powered next won
    have bearable := fits b.claim member (tally.kept.decided.1 decided)
    refine (Observing.takeEffectHalts effect).2 (Observing.markBears.2 ?_)
    exact (tally.unbatched unbatched).bears bearable.scope

end Tally

end TokenBridge
