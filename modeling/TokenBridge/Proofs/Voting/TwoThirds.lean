import TokenBridge.Proofs.Observation.ExactlyOnce
import TokenBridge.Proofs.Stakes.Share
import TokenBridge.Proofs.Stakes.TotalPower
import TokenBridge.Proofs.Voting.Discipline
/-!
Two thirds decide. While the stakes never sum up to more than the total can count, what is observed has the
votes of distinct bound validators with two thirds of all stake, and no two contents of a nonce have that at
once, so the order in which they are looked at does not matter.
-/
namespace TokenBridge

open TokenBridge.Action

variable {s t u : Store} {block : Block} {r : Response} {order : Order} {n : UInt64} {p q : Word}

def Store.Decides (s : Store) (nonce : UInt64) (fingerprint : Word) : Prop :=
  Power.threshold ≤
    (StakeView.stored.share s (s.voters nonce fingerprint) s.totalPower).toNat

theorem Store.decidesIff (powered : 0 < s.stake) (sync : s.totalPower.toNat = s.stake) :
    s.Decides n p ↔ 2 * s.stake ≤ 3 * StakeView.stored.stakeOfAll s (s.voters n p) := by
  have total : s.totalPower ≠ 0 := fun zero => by
    rw [zero, UInt64.toNat_zero] at sync
    omega
  rw [Decides, StakeView.stored.shareDecides s _ total, sync]

theorem Disciplined.oneDecides (inv : Disciplined s) (powered : 0 < s.stake)
    (sync : s.totalPower.toNat = s.stake) (first : s.Decides n p) (second : s.Decides n q) :
    p = q := by
  rw [Store.decidesIff powered sync] at first second
  by_contra apart
  refine s.oneDecides powered (List.nodup_append.2 ⟨inv.distinct n p, inv.distinct n q, ?_⟩)
    first second
  intro v atP w atQ same
  subst same
  exact apart (inv.once n p q v atP atQ)

theorem StakesKept.share (h : StakesKept s t) (voters : List Account) :
    StakeView.stored.share t voters t.totalPower = StakeView.stored.share s voters s.totalPower := by
  simp only [StakeView.share, StakeView.stored, h.powers, h.totalPower]

theorem StakesKept.decides (h : StakesKept s t) (voters : t.voters = s.voters) :
    t.Decides n p ↔ s.Decides n p := by
  rw [Store.Decides, Store.Decides, h.share, voters]

theorem ObservedKept.observedAt (h : ObservedKept s t) : t.ObservedAt n p ↔ s.ObservedAt n p := by
  rw [Store.observedAtIff, Store.observedAtIff, h.observed]

namespace Observing

theorem passDecides {os : List Observation} (pass : Pass .stored block s os t)
    (new : ¬ s.ObservedAt n p) (observed : t.ObservedAt n p) :
    s.totalPower ≠ 0 ∧ s.Decides n p := by
  induction pass with
  | rest s => exact absurd observed new
  | @observe s u t nonce fingerprint a e later powered _ won effect _ ih =>
    obtain ⟨here, _, decided⟩ := winnerFound won
    by_cases same : (nonce, fingerprint) = (n, p)
    · cases same
      have voters : s.voters n p = a.votes := by simp [Store.voters, here]
      refine ⟨powered, ?_⟩
      rw [Store.Decides, voters]
      exact decided
    · -- A later observation of the pass; stakes and votes are still what they were.
      have marked : StakesKept s (mark nonce fingerprint a s) := ⟨rfl, rfl⟩
      have stakes : StakesKept s u := marked.trans (takeEffectMoves effect).stakes
      have voters := ((markPoll here).trans (takeEffectMoves effect).poll).voters
      have before : ¬ u.ObservedAt n p := by
        rw [(takeEffectMoves effect).votes.kept.observedAt, Store.observedAtIff, markObserved,
          if_neg same, ← Store.observedAtIff]
        exact new
      obtain ⟨total, decides⟩ := ih before observed
      rw [stakes.totalPower] at total
      exact ⟨total, (stakes.decides voters).1 decides⟩

end Observing

theorem Voted.observedAt {os : List Observation} (inv : InOrder s os) (h : Voted block s t) :
    t.ObservedAt n p ↔ s.ObservedAt n p := by
  rcases h with rfl | ⟨_, _, _, _, _, cast⟩
  · rfl
  · exact (Voting.castKeeps inv cast).1.observedAt

theorem Observes.quiet {os : List Observation} (inv : InOrder s os) (h : Observes block s [] t) :
    t.ObservedAt n p ↔ s.ObservedAt n p := by
  obtain ⟨u, v, voted, pass, kept⟩ := h
  cases Observing.passQuiet pass
  rw [kept.kept.observedAt, voted.observedAt inv]

theorem Movement.decides {os : List Observation} (inv : InOrder s os)
    (moved : Movement block s order r t) (new : ¬ s.ObservedAt n p) (observed : t.ObservedAt n p) :
    StakesKept s t ∧ t.totalPower ≠ 0 ∧ t.Decides n p := by
  have observes := moved.observes
  have loud : r.observations ≠ [] := fun none => by
    rw [none] at observes
    exact new ((observes.quiet inv).1 observed)
  have unreporting : order.reports = [] := by
    cases moved with
    | administered _ unreporting _ _ _ => exact unreporting
    | reported _ _ _ unobserving => exact absurd unobserving loud
    | entered _ _ _ unreporting _ _ _ => exact unreporting
    | cancelled same _ _ _ _ _ _ => rw [same]; rfl
    | assembled _ unreporting _ _ _ => exact unreporting
    | registered same _ _ _ _ _ => rw [same]; rfl
    | observed _ unreporting _ _ _ _ _ => exact unreporting
  have stakes := moved.stakes
  rw [unreporting, List.foldl_nil] at stakes
  obtain ⟨u, v, voted, pass, kept⟩ := observes
  have atU : ¬ u.ObservedAt n p := fun early => new ((voted.observedAt inv).1 early)
  obtain ⟨total, decides⟩ := Observing.passDecides pass atU (kept.kept.observedAt.1 observed)
  have after : StakesKept u t := by
    have before := voted.stakes
    exact ⟨stakes.powers.trans before.powers.symm, stakes.totalPower.trans before.totalPower.symm⟩
  have voters : t.voters = u.voters := by
    rw [← (Observing.passPoll pass).voters]
    unfold Store.voters
    rw [kept.attestations]
  refine ⟨stakes, ?_, (after.decides voters).2 decides⟩
  rw [after.totalPower]
  exact total

theorem Polling.boundBefore (inv : Disciplined s) (polling : Polling block s t) {v : Account}
    (voted : v ∈ t.voters n p) : s.Bound v := by
  cases polling with
  | kept kept =>
    rw [kept.voters] at voted
    exact inv.bound n p v voted
  | voted bound _ cast kept =>
    rw [kept.voters] at voted
    rcases (Voting.castMem cast).1 voted with old | ⟨rfl, _, _⟩
    · exact inv.bound n p v old
    · exact inv.led _ _ bound
  | enrolled enrolled =>
    rw [enrolled.polls.1] at voted
    exact inv.bound n p v voted

namespace Observing

def passes (s : Store) (e : (UInt64 × Word) × Attestation) : Bool :=
  !e.2.observed &&
    Nat.ble Power.threshold (StakeView.stored.share s e.2.votes s.totalPower).toNat

def candidates (s : Store) (nonce : UInt64) : List ((UInt64 × Word) × Attestation) :=
  (s.attestations.filter fun k _ => k.1 = nonce).entries

theorem winnerInAnyOrder (inv : Disciplined s) (powered : 0 < s.stake)
    (sync : s.totalPower.toNat = s.stake) {listed : List ((UInt64 × Word) × Attestation)}
    (reordered : listed.Perm (candidates s n)) :
    (listed.find? (passes s)).map (fun e => (e.1.2, e.2)) =
      winner .stored s n s.totalPower := by
  have atNonce : ∀ e ∈ listed, passes s e = true →
      ∃ p, e.1 = (n, p) ∧ s.attestations.get? (n, p) = some e.2 ∧ s.Decides n p := by
    rintro ⟨⟨m, p⟩, a⟩ member passed
    obtain ⟨here, same⟩ := List.mem_filter.1 (reordered.subset member)
    have same : m = n := by simpa using same
    subst same
    have found := SortedMap.getIff.2 here
    have voters : s.voters m p = a.votes := by simp [Store.voters, found]
    simp only [passes, Bool.and_eq_true, Nat.ble_eq] at passed
    exact ⟨p, rfl, found, by rw [Store.Decides, voters]; exact passed.2⟩
  have alone : {e ∈ listed | passes s e = true}.Subsingleton := by
    rintro ⟨k, a⟩ ⟨first, passed⟩ ⟨l, b⟩ ⟨second, passed'⟩
    obtain ⟨p, rfl, found, decides⟩ := atNonce _ first passed
    obtain ⟨q, rfl, found', decides'⟩ := atNonce _ second passed'
    cases inv.oneDecides powered sync decides decides'
    rw [found] at found'
    cases found'
    rfl
  rw [List.find?_eq_find?_of_perm reordered alone]
  rfl

end Observing

namespace Journal

variable {j : Journal}

/-- After no single report do the stakes sum up to more than the total can count. -/
def StakesFit (j : Journal) : Prop :=
  ∀ i, (reported (j.reports.take i)).stake ≤ Counter.largest

theorem StakesFit.earlier {i : Journal} {later : List Deed} (fits : j.StakesFit)
    (split : j.deeds = i.deeds ++ later) : i.StakesFit := by
  intro k
  have whole : j.reports = i.reports ++ later.flatMap fun d => d.order.reports := by
    simp [reports, split]
  have part := fits (min k i.reports.length)
  rw [whole, List.take_append_of_le_length (Nat.min_le_right ..), ← List.take_eq_take_min] at part
  exact part

theorem Run.observedByTwoThirds (run : Run j) (fits : j.StakesFit) :
    ∀ d ∈ j.deeds, ∀ n p, ¬ d.before.ObservedAt n p → d.after.ObservedAt n p →
      d.after.powers = d.before.powers ∧ (d.after.voters n p).Nodup ∧
      (∀ v ∈ d.after.voters n p, d.before.Bound v ∧ d.after.Bound v) ∧
      0 < d.after.stake ∧
      2 * d.after.stake ≤ 3 * StakeView.stored.stakeOfAll d.after (d.after.voters n p) ∧
      ∀ q, d.after.Decides n q → q = p := by
  intro d done n p new observed
  rcases run.points d done with ⟨m, yields⟩ | ⟨i, more, past, before, split, later, yields⟩
  · have quiet : Observes d.block .empty d.response.observations d.after :=
      Contract.setUpObserves yields
    rw [(Contract.setUpYields yields).choose_spec.2.2.2] at quiet
    obtain ⟨_, found, _⟩ := (quiet.quiet .empty).1 observed
    cases found
  · rw [before] at new ⊢
    have polling := Chain.laterPolling later yields
    have disciplined := polling.disciplined past.disciplined
    obtain ⟨stakes, powered, decides⟩ :=
      (Chain.laterMovement later yields).decides past.inOrder new observed
    have sync : d.after.totalPower.toNat = d.after.stake := by
      have total := past.totalIsSum (fits.earlier split)
      rw [stakes.totalPower, total, Store.stake, Store.stake, stakes.powers]
    have positive : 0 < d.after.stake := by
      rw [← sync]
      exact Nat.pos_of_ne_zero fun zero => powered (UInt64.toNat_inj.1 zero)
    refine ⟨stakes.powers, disciplined.distinct n p, fun v voted => ?_, positive,
      (Store.decidesIff positive sync).1 decides, fun q other =>
        disciplined.oneDecides positive sync other decides⟩
    exact ⟨polling.boundBefore past.disciplined voted, disciplined.bound n p v voted⟩

/-- What is observed has the votes of distinct bound validators with two thirds of all stake, and no two contents of a
nonce decide. -/
theorem Run.twoThirdsDecide (run : Run j) (fits : j.StakesFit) :
    (∀ d ∈ j.deeds, ∀ n p, ¬ d.before.ObservedAt n p → d.after.ObservedAt n p →
      d.after.powers = d.before.powers ∧ (d.after.voters n p).Nodup ∧
      (∀ v ∈ d.after.voters n p, d.before.Bound v ∧ d.after.Bound v) ∧
      0 < d.after.stake ∧
      2 * d.after.stake ≤ 3 * StakeView.stored.stakeOfAll d.after (d.after.voters n p) ∧
      ∀ q, d.after.Decides n q → q = p) ∧
    (0 < j.store.stake →
      (∀ n p q, j.store.Decides n p → j.store.Decides n q → p = q) ∧
      ∀ n (listed : List ((UInt64 × Word) × Attestation)),
        listed.Perm (Observing.candidates j.store n) →
        (listed.find? (Observing.passes j.store)).map (fun e => (e.1.2, e.2)) =
          Observing.winner .stored j.store n j.store.totalPower) := by
  have sync := run.totalIsSum fits
  refine ⟨run.observedByTwoThirds fits, fun powered => ⟨fun n p q first second => ?_, ?_⟩⟩
  · exact run.disciplined.oneDecides powered sync first second
  · intro n listed reordered
    exact Observing.winnerInAnyOrder run.disciplined powered sync reordered

def electedClaim : Claim := ⟨1, 50, .tokenDeployed "atom" .zero "Atom" "ATM" 6⟩

def elected : Journal :=
  (start.deliver ⟨100, 1⟩ (.setUp
    ⟨"admin", "bridge", ["alpha", "beta", "gamma"], [⟨"alpha", 40⟩, ⟨"beta", 30⟩, ⟨"gamma", 30⟩],
      none, none, none, none, none, none, none⟩)).deliverAll
    [(⟨101, 2⟩, .execute ⟨⟨"alpha"⟩, []⟩
        (.setOrchestrator "first" "0x0000000000000000000000000000000000000001")),
      (⟨102, 3⟩, .execute ⟨⟨"beta"⟩, []⟩
        (.setOrchestrator "second" "0x0000000000000000000000000000000000000002")),
      (⟨103, 4⟩, .execute ⟨⟨"first"⟩, []⟩ (.submitClaim electedClaim)),
      (⟨104, 5⟩, .execute ⟨⟨"second"⟩, []⟩ (.submitClaim electedClaim))]

theorem electedRun : Run elected :=
  Run.deliverAll (.setUp (by decide)) (by decide)

theorem electedByTwoThirds :
    elected.StakesFit ∧ ∃ d ∈ elected.deeds, ∃ p, ¬ d.before.ObservedAt 1 p ∧ d.after.ObservedAt 1 p ∧
      d.after.stake = 100 ∧ d.after.voters 1 p = [⟨"alpha"⟩, ⟨"beta"⟩] ∧
      2 * d.after.stake ≤ 3 * StakeView.stored.stakeOfAll d.after (d.after.voters 1 p) := by
  have reports : elected.reports = [⟨"alpha", 40⟩, ⟨"beta", 30⟩, ⟨"gamma", 30⟩] := by
    decide +kernel
  have fits : elected.StakesFit := by
    intro i
    rw [reports]
    match i with
    | 0 | 1 | 2 => decide +kernel
    | i + 3 =>
      rw [List.take_of_length_le (by simp)]
      decide +kernel
  obtain ⟨d, done, before, after, stake, voters⟩ : ∃ d ∈ elected.deeds,
      d.before.observed? 1 electedClaim.fingerprint = none ∧
      d.after.observed? 1 electedClaim.fingerprint = some electedClaim ∧
      d.after.stake = 100 ∧
      d.after.voters 1 electedClaim.fingerprint = [⟨"alpha"⟩, ⟨"beta"⟩] := by
    decide +kernel
  have new : ¬ d.before.ObservedAt 1 electedClaim.fingerprint := fun early => by
    obtain ⟨_, found⟩ := Store.observedAtIff.1 early
    rw [before] at found
    cases found
  have observed := Store.observedAtIff.2 ⟨_, after⟩
  have decided := (Run.twoThirdsDecide electedRun fits).1 d done _ _ new observed
  exact ⟨fits, d, done, _, new, observed, stake, voters, decided.2.2.2.2.1⟩

end Journal

end TokenBridge
