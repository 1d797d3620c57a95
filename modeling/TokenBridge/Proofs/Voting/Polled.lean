import TokenBridge.Proofs.Voting.Tally
import Mathlib.Data.List.Induction
/-!
Submissions of a history. From a prepared bridge on, every orchestrator submits the claims of the history in their
order; a submission keeps the tally, whether it is taken or comes too late.
-/
namespace TokenBridge

open TokenBridge.Action

variable {s t u : Store} {history : History} {done upTo : Account → Nat} {block : Block} {height : UInt64}

def Order.prepares : Order → Bool
  | .setUp _ => true
  | .execute _ (.setOrchestrator ..) | .execute _ (.addStaticValidator _) => true
  | .execute _ (.updatePowers _) | .execute _ (.registerToken ..) => true
  | _ => false

structure Prepared (s : Store) : Prop where
  configured : ∃ c, s.config = some c
  unattested : s.attestations = ∅
  unobserved : s.observedNonce = 0
  unvoted : s.lastVoted = ∅
  unbatched : s.Unbatched

theorem Prepared.keep (prepared : Prepared s) (config : t.config = s.config)
    (votes : VotesKept s t) (lastVoted : t.lastVoted = s.lastVoted) (batches : t.batches = s.batches) :
    Prepared t where
  configured := by rw [config]; exact prepared.configured
  unattested := votes.attestations.trans prepared.unattested
  unobserved := votes.observedNonce.trans prepared.unobserved
  unvoted := lastVoted.trans prepared.unvoted
  unbatched := by
    unfold Store.Unbatched
    rw [batches]
    exact prepared.unbatched

theorem Chain.prepares {order : Order} {r : Response} (later : order.setsUp = false)
    (prepares : order.prepares = true) (prepared : Prepared s)
    (h : Yields (Chain.action block order) s r t) : Prepared t := by
  cases order with
  | setUp => cases later
  | migrate => cases prepares
  | execute caller m =>
    cases m with
    | setOrchestrator orchestrator signer =>
      obtain ⟨_, _, _, _, _, _, _, _, _, rfl, _⟩ := Directory.setOrchestratorYields h
      exact prepared.keep rfl ⟨rfl, rfl, rfl⟩ rfl rfl
    | addStaticValidator name =>
      obtain ⟨_, _, _, _, _, rfl, _⟩ := Directory.addStaticValidatorYields h
      exact prepared.keep rfl ⟨rfl, rfl, rfl⟩ rfl rfl
    | updatePowers reports =>
      obtain ⟨_, _, _, rfl, _⟩ := Directory.updatePowersYields h
      obtain ⟨_, _, same⟩ := Directory.reportMoves reports s
      rw [same]
      exact prepared.keep rfl ⟨rfl, rfl, rfl⟩ rfl rfl
    | registerToken token cw20 =>
      obtain ⟨_, _, _, _, _, _, _, _, rfl, _⟩ := Registry.registerTokenYields h
      obtain ⟨_, unparked⟩ := Registry.unparkAllMoves _ _ _
      rw [unparked]
      exact prepared.keep rfl ⟨rfl, rfl, rfl⟩ rfl rfl
    | _ => cases prepares

theorem Prepared.tally {start : Store} (prepared : Prepared start) (orderly : Orderly start) :
    Tally start history (fun _ => 0) start := by
  obtain ⟨_, unattested, unobserved, unvoted, _⟩ := prepared
  refine ⟨orderly, ⟨.here, rfl, rfl, rfl, rfl⟩, fun _ _ _ => Nat.zero_le _, ?members, ?within, ?voted, ?last,
    ?late, ?decided⟩
  case members =>
    intro k a found
    rw [unattested] at found
    cases found
  case within =>
    intro n p v voted
    obtain ⟨a, found, _⟩ := Store.memVoters.1 voted
    rw [unattested] at found
    cases found
  case voted =>
    intro c member _ _ _ _ come
    have positive := history.positive member
    omega
  case last =>
    intro v o n _ found
    rw [unvoted] at found
    cases found
  case late =>
    intro v o _ _
    omega
  case decided =>
    intro n first past
    have none : start.observedNonce.toNat = 0 := by rw [unobserved]; rfl
    omega

theorem Store.undecided {n : Nat} (powered : s.totalPower ≠ 0) (first : 1 ≤ n) :
    ¬ s.Decided (fun _ => 0) n := by
  intro decided
  obtain ⟨_, _, _, come⟩ := decided.someone powered
  omega

theorem Store.Decided.before {n : Nat} {o : Account} (decided : s.Decided (onward done o) n)
    (short : done o + 1 < n) : s.Decided done n := by
  have same : s.reached (onward done o) n = s.reached done n := by
    refine congrArg _ (List.filter_congr fun e _ => decide_eq_decide.2 ?_)
    unfold onward
    split
    · rename_i here
      rw [here]
      omega
    · rfl
  unfold Decided at decided ⊢
  rwa [same] at decided

namespace Tally

variable {start : Store} {caller : Caller} {c : Claim} {v : Account} {es : List Effect}

theorem submits (tally : Tally start history done s) (prepared : Prepared start)
    (powered : start.totalPower ≠ 0) (atHeight : block.height = height)
    (acts : s.validatorOf.get? caller.sender = some v) (member : c ∈ history.claims)
    (next : c.nonce.toNat = done caller.sender + 1)
    (inTurn : (Voting.lastNonce s v).toNat = done caller.sender)
    (fits : ∀ c ∈ history.claims,
      start.Decided (onward done caller.sender) c.nonce.toNat → c.Bearable)
    (applied : Observing.Applied height (history.claims.take s.observedNonce.toNat) start es s) :
    ∃ r t, Yields (Observing.submit block caller c) s r t ∧
      Tally start history (onward done caller.sender) t ∧
      ¬ t.Decided (onward done caller.sender) (t.observedNonce.toNat + 1) ∧
      ∃ later, r.messages = later.flatMap Effect.messages ∧
        Observing.Applied height (history.claims.take t.observedNonce.toNat) start (es ++ later) t := by
  obtain ⟨config, configured⟩ := prepared.configured
  rw [← tally.kept.config] at configured
  have leads := (tally.oneToOne _ v).1 acts
  obtain ⟨r, t, yields⟩ : ∃ r t, Yields (Observing.submit block caller c) s r t := by
    refine (yieldsOrHalts _ _).resolve_right ?_
    rintro ⟨halt, t, halts⟩
    rcases Observing.submitHalts (history.sound c member) acts configured halts with
      refused | ⟨b, u, cast, stopped⟩
    · obtain ⟨a, made⟩ := tally.accepts leads member next inTurn block.height
      exact (Voting.castMade made).unhalted refused
    · exact (tally.cast leads member next cast).completes prepared.unbatched fits stopped
  obtain ⟨w, d, b, u, os, _, acts', _, cast, observed, answers⟩ := Observing.submitObserves yields
  obtain rfl : v = w := Option.some.inj (acts.symm.trans acts')
  have voted := tally.cast leads member next cast
  obtain ⟨pass, undue⟩ := Observing.observeEnds observed
  have passed := voted.pass prepared.unbatched pass
  have applied : Observing.Applied height (history.claims.take u.observedNonce.toNat) start es u := by
    obtain ⟨_, rfl⟩ := Voting.castYields cast
    exact applied
  refine ⟨r, t, yields, passed, passed.quiet ?_ undue, os.map Observation.effect, ?_,
    voted.passApplied prepared.unbatched atHeight applied pass⟩
  · rw [passed.kept.totalPower]
    exact powered
  · rw [answers.messages, List.flatMap_map]

theorem refuses {r : Response} (acts : s.validatorOf.get? caller.sender = some v)
    (next : c.nonce.toNat = done caller.sender + 1) (silent : s.lastVoted.get? v = none)
    (tooLate : done caller.sender + 1 < max s.observedNonce.toNat 1) :
    ¬ Yields (Observing.submit block caller c) s r t := by
  intro yields
  obtain ⟨w, _, _, _, _, _, acts', _, cast, _⟩ := Observing.submitYields yields
  obtain rfl : v = w := Option.some.inj (acts.symm.trans acts')
  have expected := Counter.nextVal (Voting.attestationOk (Voting.castYields cast).1).1
  have behind := Counter.cappedSubVal s.observedNonce 1
  have one : (1 : UInt64).toNat = 1 := rfl
  simp only [Voting.lastNonce, silent, Option.getD_none] at expected
  omega

end Tally

structure Submission where
  block : Block
  caller : Caller
  claim : Claim

namespace Submission

def order (x : Submission) : Block × Order := (x.block, .execute x.caller (.submitClaim x.claim))

def sentBy (o : Account) (xs : List Submission) : List Claim :=
  (xs.filter fun x => x.caller.sender = o).map Submission.claim

theorem sentSnoc (o : Account) (xs : List Submission) (x : Submission) : sentBy o (xs ++ [x]) =
    sentBy o xs ++ if x.caller.sender = o then [x.claim] else [] := by
  by_cases same : x.caller.sender = o
  · simp [sentBy, same]
  · simp [sentBy, same]

end Submission

namespace Journal

variable {start j k : Journal}

def submitAll (j : Journal) (xs : List Submission) : Journal := j.deliverAll (xs.map Submission.order)

theorem Run.prepared (run : Run j) (prepares : ∀ d ∈ j.deeds, d.order.prepares = true) :
    Prepared j.store := by
  refine Run.keeps (P := fun j => (∀ d ∈ j.deeds, d.order.prepares = true) → Prepared j.store)
    ?setUp ?deed run prepares
  case setUp =>
    intro block m r t yields _
    obtain ⟨admin, _, rfl, _⟩ := Contract.setUpYields yields
    obtain ⟨_, _, same⟩ := Directory.reportMoves m.stakes _
    rw [same]
    exact ⟨⟨_, rfl⟩, rfl, rfl, rfl, fun _ => rfl⟩
  case deed =>
    intro j block order r t _ past later yields prepares
    have prepared := past fun d done => prepares d (List.mem_append_left _ done)
    exact Chain.prepares later (prepares _ (List.mem_append_right _ (List.mem_singleton_self _)))
      prepared yields

/-- Where a bridge stands that was prepared as `start`, once every orchestrator `o` has submitted the first
`done o` claims of the history. -/
structure Polled (start : Journal) (history : History) (height : UInt64) (done : Account → Nat)
    (j : Journal) : Prop where
  tally : Tally start.store history done j.store
  quiet : ¬ j.store.Decided done (j.store.observedNonce.toNat + 1)
  applied : ∃ es, j.messages = start.messages ++ es.flatMap Effect.messages ∧
    Observing.Applied height (history.claims.take j.store.observedNonce.toNat) start.store es j.store

theorem Polled.submit {caller : Caller} {c : Claim} {v : Account}
    (polled : Polled start history height done j) (prepared : Prepared start.store)
    (powered : start.store.totalPower ≠ 0) (atHeight : block.height = height)
    (acts : start.store.validatorOf.get? caller.sender = some v) (member : c ∈ history.claims)
    (next : c.nonce.toNat = done caller.sender + 1)
    (fits : ∀ c ∈ history.claims,
      start.store.Decided (onward done caller.sender) c.nonce.toNat → c.Bearable) :
    Polled start history height (onward done caller.sender)
      (j.deliver block (.execute caller (.submitClaim c))) := by
  obtain ⟨tally, quiet, es, messages, applied⟩ := polled
  rw [← tally.kept.validatorOf] at acts
  have leads := (tally.oneToOne _ v).1 acts
  rcases tally.turn leads with inTurn | ⟨silent, tooLate⟩
  · obtain ⟨r, t, yields, tally, quiet, later, answered, applied⟩ :=
      tally.submits prepared powered atHeight acts member next inTurn fits applied
    have yields : Yields (Chain.action block (.execute caller (.submitClaim c))) j.store r t := yields
    rw [deliverYields yields]
    refine ⟨tally, quiet, es ++ later, ?_, applied⟩
    rw [List.flatMap_append, ← List.append_assoc, ← messages, ← answered]
    simp [Journal.messages]
  · rcases deliverCases j block (.execute caller (.submitClaim c)) with ⟨r, t, yields, _⟩ | same
    · exact absurd yields (Tally.refuses acts next silent tooLate)
    · rw [same]
      refine ⟨tally.skip leads member next silent tooLate, fun decided => quiet ?_, es, messages, applied⟩
      exact decided.before (by omega)

theorem submitAllSnoc (xs : List Submission) (x : Submission) : j.submitAll (xs ++ [x]) =
    (j.submitAll xs).deliver x.block (.execute x.caller (.submitClaim x.claim)) := by
  simp [submitAll, deliverAll, Submission.order]

theorem Polled.all {xs : List Submission} (prepared : Prepared start.store)
    (orderly : Orderly start.store) (powered : start.store.totalPower ≠ 0)
    (atHeight : ∀ x ∈ xs, x.block.height = height)
    (bound : ∀ x ∈ xs, x.caller.sender ∈ start.store.validatorOf.keys)
    (inOrder : ∀ o ∈ start.store.validatorOf.keys, Submission.sentBy o xs <+: history.claims)
    (fits : ∀ c ∈ history.claims,
      start.store.Decided (fun o => (Submission.sentBy o xs).length) c.nonce.toNat → c.Bearable) :
    Polled start history height (fun o => (Submission.sentBy o xs).length) (start.submitAll xs) := by
  -- From the last submission on, since all that an orchestrator has sent before is a beginning of the history too.
  induction xs using List.reverseRecOn with
  | nil =>
    show Polled start history height (fun _ => 0) start
    refine ⟨prepared.tally orderly, Store.undecided powered (Nat.le_add_left ..), [], ?_, ?_⟩
    · simp
    · rw [prepared.unobserved]
      exact .none
  | append_singleton xs x ih =>
    have here : x ∈ xs ++ [x] := List.mem_append_right _ (List.mem_singleton_self x)
    have before (y : Submission) (inside : y ∈ xs) : y ∈ xs ++ [x] := List.mem_append_left _ inside
    have one : (fun o => (Submission.sentBy o (xs ++ [x])).length) =
        onward (fun o => (Submission.sentBy o xs).length) x.caller.sender := by
      funext o
      rw [Submission.sentSnoc, onward]
      split
      · rename_i same
        rw [if_pos same.symm, List.length_append, List.length_singleton]
      · rename_i apart
        rw [if_neg (Ne.symm apart), List.append_nil]
    have known := bound x here
    obtain ⟨v, acts⟩ := SortedMap.memKeys.1 known
    have upToHere := inOrder _ known
    rw [Submission.sentSnoc, if_pos rfl] at upToHere
    obtain ⟨member, next⟩ := history.following upToHere
    rw [one] at fits
    rw [one, submitAllSnoc]
    refine (ih (fun y inside => atHeight y (before y inside)) (fun y inside => bound y (before y inside))
      (fun o known => ?_) fun c listed decided => fits c listed ?_).submit prepared powered (atHeight x here)
      acts member next fits
    · have whole := inOrder o known
      rw [Submission.sentSnoc] at whole
      exact (List.prefix_append ..).trans whole
    · exact decided.still

theorem Polled.cursor (polled : Polled start history height done j) {n : Nat} (first : 1 ≤ n) :
    n ≤ j.store.observedNonce.toNat ↔ start.store.Decided done n := by
  have same {m : Nat} : j.store.Decided done m ↔ start.store.Decided done m := polled.tally.kept.decided
  constructor
  · intro past
    exact same.1 (polled.tally.decided n first past)
  · intro decided
    by_contra beyond
    exact polled.quiet ((same.2 decided).mono (fun _ _ _ => Nat.le_refl _) (by omega))

structure Reported (history : History) (j : Journal) : Prop where
  members : ∀ k a, j.store.attestations.get? k = some a → a.claim ∈ history.claims
  scopes : ∀ o ∈ j.observations, o.claim.event.ScopeFits
  room : Counter.next? j.store.observedNonce ≠ none
  powered : j.store.totalPower ≠ 0

theorem Run.reported (run : Run j) (prepared : Prepared j.store) (powered : j.store.totalPower ≠ 0) :
    Reported history j := by
  refine ⟨fun k a found => ?_, fun o inside => ?_, ?_, powered⟩
  · rw [prepared.unattested] at found
    cases found
  · have counted := run.inOrder.counted
    rw [prepared.unobserved] at counted
    rw [List.map_eq_nil_iff.1 counted] at inside
    cases inside
  · rw [prepared.unobserved]
    exact nofun

theorem Reported.submit {caller : Caller} {c : Claim} (reported : Reported history j)
    (member : c ∈ history.claims) :
    Reported history (j.deliver block (.execute caller (.submitClaim c))) := by
  rcases deliverCases j block (.execute caller (.submitClaim c)) with ⟨r, t, yields, same⟩ | same
  · obtain ⟨v, d, a, u, os, sound, _, _, cast, observed, answers⟩ := Observing.submitObserves yields
    obtain ⟨pass, _⟩ := Observing.observeEnds observed
    have voted : Voted block j.store u := .inr ⟨_, v, c, a, sound, cast⟩
    have powered : t.totalPower ≠ 0 := by
      rw [(Observing.passStakes pass).totalPower, voted.stakes.totalPower]
      exact reported.powered
    rw [same]
    refine ⟨fun k b found => ?_, fun o inside => ?_, Observing.observeRoom observed powered, powered⟩
    · obtain ⟨b', here, sameClaim⟩ := Observing.passClaims pass found
      rw [← sameClaim]
      rcases Voting.castClaims cast here with new | ⟨e, old, sameClaim⟩
      · rw [new]
        exact member
      · rw [← sameClaim]
        exact reported.members k e old
    · rw [observationsConcat, answers.observations] at inside
      rcases List.mem_append.1 inside with old | new
      · exact reported.scopes o old
      · exact Observing.passScopes pass o new
  · rw [same]
    exact reported

theorem Reported.all {xs : List Submission} (reported : Reported history j)
    (members : ∀ x ∈ xs, x.claim ∈ history.claims) : Reported history (j.submitAll xs) := by
  induction xs using List.reverseRecOn with
  | nil => exact reported
  | append_singleton xs x ih =>
    rw [submitAllSnoc]
    refine (ih fun y inside => members y (List.mem_append_left _ inside)).submit ?_
    exact members x (List.mem_append_right _ (List.mem_singleton_self x))

theorem Reported.bearable {c : Claim} (reported : Reported history j) (run : Run j)
    (member : c ∈ history.claims) (past : c.nonce.toNat ≤ j.store.observedNonce.toNat) : c.Bearable := by
  have inv := run.inOrder
  obtain ⟨p, d, observed⟩ := inv.decided c.nonce (history.positive member) past
  obtain ⟨a, found, _, rfl⟩ := Store.observedIff.1 observed
  obtain rfl := history.alone (reported.members _ a found) member (inv.atNonce _ _ a found)
  obtain ⟨o, inside, same⟩ := inv.observedFrom observed
  obtain ⟨next, found⟩ := Option.ne_none_iff_exists'.1 reported.room
  have room := Counter.nextVal found
  have bound := next.toNat_lt
  refine ⟨same ▸ reported.scopes o inside, ?_⟩
  have size : UInt64.size = 2 ^ 64 := rfl
  omega

end Journal

end TokenBridge
