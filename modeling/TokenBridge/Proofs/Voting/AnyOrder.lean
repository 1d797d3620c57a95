import TokenBridge.Proofs.Voting.Polled
/-!
Honest votes in any order. Orchestrators that report one history, each its claims in their order, bring the bridge
to one outcome however their submissions interleave: what comes too late to be taken is a vote that decides
nothing any more.
-/
namespace TokenBridge

open TokenBridge.Action

variable {s t : Store} {history : History} {done upTo : Account → Nat} {height : UInt64} {c : Claim}

def Store.listing (s : Store) (key : UInt64 × Word) : Option (Claim × Bool) :=
  (s.attestations.get? key).map fun a => (a.claim, a.observed)

theorem Store.observedListing (n : UInt64) (p : Word) :
    s.observed? n p = (s.listing (n, p)).bind fun e => if e.2 then some e.1 else none := by
  unfold observed? listing
  cases s.attestations.get? (n, p) <;> rfl

theorem Store.AtGreatestHeight.alone (h : s.AtGreatestHeight) (h' : t.AtGreatestHeight)
    (same : t.observed? = s.observed?) : s.ethHeight ≤ t.ethHeight := by
  rcases h.attained with ⟨n, p, d, found, top⟩ | ⟨_, zero⟩
  · rw [← top]
    exact h'.bounds n p d (by rw [same]; exact found)
  · rw [zero]
    exact UInt64.zero_le

theorem Tally.listed {start : Store} (tally : Tally start history done s) {key : UInt64 × Word} {b : Bool} :
    s.listing key = some (c, b) ↔
      (c ∈ history.claims ∧ key = (c.nonce, c.fingerprint)) ∧
        (∃ v o, s.orchestratorOf.get? v = some o ∧ c.nonce.toNat ≤ done o) ∧
          b = decide (c.nonce.toNat ≤ s.observedNonce.toNat) := by
  unfold Store.listing
  rw [Option.map_eq_some_iff]
  constructor
  · rintro ⟨a, found, same⟩
    cases same
    obtain ⟨n, p⟩ := key
    obtain ⟨member, rfl, rfl⟩ := tally.found found
    refine ⟨⟨member, rfl⟩, ?_, ?_⟩
    · obtain ⟨voted, _⟩ := tally.attested _ _ a found
      obtain ⟨v, voted⟩ := List.exists_mem_of_ne_nil _ voted
      obtain ⟨o, leads, come⟩ := tally.within _ _ v (Store.memVoters.2 ⟨a, found, voted⟩)
      exact ⟨v, o, leads, come⟩
    · by_cases past : a.claim.nonce.toNat ≤ s.observedNonce.toNat
      · obtain ⟨a', found', observed⟩ := tally.observedAt member past
        rw [found] at found'
        cases found'
        rw [observed, decide_eq_true past]
      · rw [tally.unobserved (by omega) found, decide_eq_false past]
  · rintro ⟨⟨member, rfl⟩, ⟨v, o, leads, come⟩, rfl⟩
    by_cases past : c.nonce.toNat ≤ s.observedNonce.toNat
    · obtain ⟨a, found, observed⟩ := tally.observedAt member past
      exact ⟨a, found, by rw [(tally.foundAt member found).1, observed, decide_eq_true past]⟩
    · obtain ⟨a, found, _⟩ := Store.memVoters.1 (tally.voted c member v o leads (by omega) come)
      refine ⟨a, found, ?_⟩
      rw [(tally.foundAt member found).1, tally.unobserved (by omega) found, decide_eq_false past]

namespace Journal

variable {j k start : Journal}

/-- All that the bridge keeps of what it was told, and all that it sends, is the same; who has voted may differ. -/
structure SameOutcome (j k : Journal) : Prop where
  cursor : j.store.observedNonce = k.store.observedNonce
  ethHeight : j.store.ethHeight = k.store.ethHeight
  pairings : j.store.pairings = k.store.pairings
  tokenOf : j.store.tokenOf = k.store.tokenOf
  locked : j.store.locked = k.store.locked
  parked : j.store.parked = k.store.parked
  executedCalls : j.store.executedCalls = k.store.executedCalls
  observedSet : j.store.observedSet = k.store.observedSet
  listing : j.store.listing = k.store.listing
  messages : j.messages = k.messages

theorem Polled.sameOutcome (first : Polled start history height done j)
    (second : Polled start history height done k) : SameOutcome j k := by
  have cursor : j.store.observedNonce = k.store.observedNonce := by
    have law (n : Nat) (positive : 1 ≤ n) :
        n ≤ j.store.observedNonce.toNat ↔ n ≤ k.store.observedNonce.toNat :=
      (first.cursor positive).trans (second.cursor positive).symm
    have here := law j.store.observedNonce.toNat
    have there := law k.store.observedNonce.toNat
    exact UInt64.toNat_inj.1 (by omega)
  obtain ⟨es, messages, applied⟩ := first.applied
  obtain ⟨fs, messages', applied'⟩ := second.applied
  rw [← cursor] at applied'
  obtain ⟨rfl, books⟩ := applied.alone applied'
  have listing : j.store.listing = k.store.listing := by
    funext key
    refine Option.ext fun e => ?_
    rw [first.tally.listed, second.tally.listed, cursor, first.tally.kept.orchestratorOf,
      second.tally.kept.orchestratorOf]
  have observed : k.store.observed? = j.store.observed? := by
    funext n p
    rw [Store.observedListing, Store.observedListing, listing]
  obtain ⟨_, inv⟩ := first.tally.inOrder
  obtain ⟨_, inv'⟩ := second.tally.inOrder
  have ethHeight := UInt64.le_antisymm (inv.height.alone inv'.height observed)
    (inv'.height.alone inv.height observed.symm)
  have pairings := congrArg Store.pairings books
  have tokenOf := congrArg Store.tokenOf books
  have locked := congrArg Store.locked books
  have parked := congrArg Store.parked books
  have executedCalls := congrArg Store.executedCalls books
  have observedSet := congrArg Store.observedSet books
  exact ⟨cursor, ethHeight, pairings, tokenOf, locked, parked, executedCalls, observedSet, listing,
    messages.trans messages'.symm⟩

end Journal

/-- Every orchestrator `o` submits the first `upTo o` claims of the history in their order, all at one height; how
the submissions of different orchestrators interleave is left open. -/
structure Interleaves (s : Store) (history : History) (upTo : Account → Nat) (height : UInt64)
    (xs : List Submission) : Prop where
  atHeight : ∀ x ∈ xs, x.block.height = height
  bound : ∀ x ∈ xs, x.caller.sender ∈ s.validatorOf.keys
  within : ∀ o ∈ s.validatorOf.keys, upTo o ≤ history.claims.length
  inOrder : ∀ o ∈ s.validatorOf.keys, Submission.sentBy o xs = history.claims.take (upTo o)

theorem Interleaves.sent {xs : List Submission} (h : Interleaves s history upTo height xs) {o : Account}
    (known : o ∈ s.validatorOf.keys) : (Submission.sentBy o xs).length = upTo o := by
  rw [h.inOrder o known, List.length_take]
  exact Nat.min_eq_left (h.within o known)

theorem Interleaves.decided {xs : List Submission} (h : Interleaves s history upTo height xs)
    (oneToOne : s.OneToOne) {n : Nat} :
    s.Decided (fun o => (Submission.sentBy o xs).length) n ↔ s.Decided upTo n := by
  have sent (v o : Account) (leads : s.orchestratorOf.get? v = some o) :
      (Submission.sentBy o xs).length = upTo o :=
    h.sent (SortedMap.memKeys.2 ⟨v, (oneToOne o v).2 leads⟩)
  constructor
  · intro decided
    exact decided.mono (fun v o leads => Nat.le_of_eq (sent v o leads)) (Nat.le_refl n)
  · intro decided
    exact decided.mono (fun v o leads => Nat.le_of_eq (sent v o leads).symm) (Nat.le_refl n)

theorem Interleaves.sameSent {xs ys : List Submission} (first : Interleaves s history upTo height xs)
    (second : Interleaves s history upTo height ys) :
    (fun o => (Submission.sentBy o xs).length) = fun o => (Submission.sentBy o ys).length := by
  have silent {zs : List Submission} {o : Account} (h : Interleaves s history upTo height zs)
      (unknown : o ∉ s.validatorOf.keys) : Submission.sentBy o zs = [] := by
    refine List.map_eq_nil_iff.2 (List.filter_eq_nil_iff.2 fun x inside same => unknown ?_)
    rw [← of_decide_eq_true same]
    exact h.bound x inside
  funext o
  by_cases known : o ∈ s.validatorOf.keys
  · rw [first.sent known, second.sent known]
  · rw [silent first known, silent second known]

namespace Journal

variable {j : Journal}

theorem Run.polled (run : Run j) (prepares : ∀ d ∈ j.deeds, d.order.prepares = true)
    (powered : j.store.totalPower ≠ 0)
    (fits : ∀ c ∈ history.claims, j.store.Decided upTo c.nonce.toNat → c.Bearable) {xs : List Submission}
    (interleaved : Interleaves j.store history upTo height xs) :
    Polled j history height (fun o => (Submission.sentBy o xs).length) (j.submitAll xs) := by
  refine Polled.all (run.prepared prepares) run.orderly powered interleaved.atHeight interleaved.bound
    (fun o known => ?_) fun c member decided => fits c member ((interleaved.decided run.oneToOne).1 decided)
  rw [interleaved.inOrder o known]
  exact List.take_prefix ..

theorem Run.bearable (run : Run j) (prepares : ∀ d ∈ j.deeds, d.order.prepares = true)
    (powered : j.store.totalPower ≠ 0) {xs : List Submission}
    (interleaved : Interleaves j.store history upTo height xs) (member : c ∈ history.claims)
    (past : c.nonce.toNat ≤ (j.submitAll xs).store.observedNonce.toNat) : c.Bearable := by
  have reported : Reported history j := run.reported (run.prepared prepares) powered
  refine (reported.all fun x inside => ?_).bearable (run.deliverAll ?_) member past
  · have sent : x.claim ∈ Submission.sentBy x.caller.sender xs :=
      List.mem_map_of_mem (List.mem_filter.2 ⟨inside, decide_eq_true rfl⟩)
    rw [interleaved.inOrder _ (interleaved.bound x inside)] at sent
    exact List.mem_of_mem_take sent
  · intro o inside
    obtain ⟨x, _, rfl⟩ := List.mem_map.1 inside
    rfl

/-- However honest submissions interleave at one height, the outcome is one if every decided claim can be borne; if
one cannot, the cursor is not where the votes would have it. -/
theorem Run.votesInAnyOrder (run : Run j) (prepares : ∀ d ∈ j.deeds, d.order.prepares = true)
    (powered : j.store.totalPower ≠ 0) {xs ys : List Submission}
    (first : Interleaves j.store history upTo height xs)
    (second : Interleaves j.store history upTo height ys) :
    ((∀ n, 1 ≤ n → (n ≤ (j.submitAll xs).store.observedNonce.toNat ↔ j.store.Decided upTo n)) ↔
      ∀ c ∈ history.claims, j.store.Decided upTo c.nonce.toNat → c.Bearable) ∧
    ((∀ c ∈ history.claims, j.store.Decided upTo c.nonce.toNat → c.Bearable) →
      SameOutcome (j.submitAll xs) (j.submitAll ys)) := by
  refine ⟨⟨fun law c member decided => ?_, fun fits n positive => ?_⟩, fun fits => ?_⟩
  · refine run.bearable prepares powered first member ?_
    exact (law _ (history.positive member)).2 decided
  · rw [(run.polled prepares powered fits first).cursor positive]
    exact first.decided run.oneToOne
  · have others := run.polled prepares powered fits second
    rw [← first.sameSent second] at others
    exact (run.polled prepares powered fits first).sameOutcome others

def enrolled : Journal :=
  (start.deliver ⟨100, 1⟩ (.setUp
    ⟨"admin", "bridge", ["alpha", "beta"], [⟨"alpha", 40⟩, ⟨"beta", 30⟩], none, none, none, none, none, none,
      none⟩)).deliverAll
    [(⟨101, 2⟩, .execute ⟨⟨"admin"⟩, []⟩ (.addStaticValidator "gamma")),
      (⟨102, 3⟩, .execute ⟨⟨"admin"⟩, []⟩ (.updatePowers [⟨"gamma", 30⟩])),
      (⟨103, 4⟩, binds "alpha" "first" "0x0000000000000000000000000000000000000001"),
      (⟨104, 5⟩, binds "beta" "second" "0x0000000000000000000000000000000000000002"),
      (⟨105, 6⟩, binds "gamma" "third" "0x0000000000000000000000000000000000000003"),
      (⟨106, 7⟩, .execute ⟨⟨"admin"⟩, []⟩
        (.registerToken "0x0000000000000000000000000000000000000000" "token"))]
where
  binds (validator orchestrator signer : String) : Order :=
    .execute ⟨⟨validator⟩, []⟩ (.setOrchestrator orchestrator signer)

theorem enrolledRun : Run enrolled := Run.deliverAll (.setUp (by decide)) (by decide)

def chronicle : History where
  claims :=
    [⟨1, 50, .deposit .zero (.small 100) .zero "carol"⟩,
      ⟨2, 60, .tokenDeployed "atom" .zero "Atom" "ATM" 6⟩, ⟨3, 55, .callExecuted ⟨[7]⟩ 0⟩]
  numbered := by decide
  sound := by decide

def voiced (voices : List (String × Nat)) : List Submission :=
  voices.filterMap fun (o, n) => (chronicle.claims[n - 1]?).map fun c => ⟨⟨200, 8⟩, ⟨⟨o⟩, []⟩, c⟩

def comeTo (o : Account) : Nat := if o.name = "first" then 3 else if o.name = "second" then 2 else 1

def punctual : List Submission :=
  voiced [("third", 1), ("first", 1), ("first", 2), ("first", 3), ("second", 1), ("second", 2)]

def belated : List Submission :=
  voiced [("second", 1), ("first", 1), ("first", 2), ("second", 2), ("third", 1), ("first", 3)]

theorem enrolledStore :
    (∀ d ∈ enrolled.deeds, d.order.prepares = true) ∧
      enrolled.store.validatorOf.keys = [⟨"first"⟩, ⟨"second"⟩, ⟨"third"⟩] ∧
      enrolled.store.totalPower = 100 ∧ enrolled.store.Decided comeTo 2 ∧
      ¬ enrolled.store.Decided comeTo 3 := by
  decide +kernel

theorem sameThoughBelated :
    Interleaves enrolled.store chronicle comeTo 200 punctual ∧
      Interleaves enrolled.store chronicle comeTo 200 belated ∧
      SameOutcome (enrolled.submitAll punctual) (enrolled.submitAll belated) ∧
      (enrolled.submitAll punctual).store.observedNonce = 2 := by
  obtain ⟨prepares, known, total, decided, undecided⟩ := enrolledStore
  have powered : enrolled.store.totalPower ≠ 0 := by
    rw [total]
    decide
  have interleaved {xs : List Submission} (atHeight : ∀ x ∈ xs, x.block.height = 200)
      (bound : ∀ x ∈ xs, x.caller.sender ∈ ([⟨"first"⟩, ⟨"second"⟩, ⟨"third"⟩] : List Account))
      (inOrder : ∀ o ∈ ([⟨"first"⟩, ⟨"second"⟩, ⟨"third"⟩] : List Account),
        Submission.sentBy o xs = chronicle.claims.take (comeTo o)) :
      Interleaves enrolled.store chronicle comeTo 200 xs := by
    refine ⟨atHeight, ?_, ?_, ?_⟩
    · rw [known]
      exact bound
    · rw [known]
      decide
    · rw [known]
      exact inOrder
  have early : Interleaves enrolled.store chronicle comeTo 200 punctual :=
    interleaved (by decide) (by decide) (by decide)
  have late : Interleaves enrolled.store chronicle comeTo 200 belated :=
    interleaved (by decide) (by decide) (by decide)
  have fits : ∀ c ∈ chronicle.claims, enrolled.store.Decided comeTo c.nonce.toNat → c.Bearable := by
    have short : ∀ c ∈ chronicle.claims, c.event.ScopeFits := by
      simp [chronicle, Event.ScopeFits, Observing.longestScope]
    have few : ∀ c ∈ chronicle.claims, c.nonce.toNat + 1 < UInt64.size := by decide
    exact fun c member _ => ⟨short c member, few c member⟩
  obtain ⟨law, same⟩ := Run.votesInAnyOrder enrolledRun prepares powered early late
  have first := (law.2 fits 2 (by decide)).2 decided
  have last := Nat.not_le.1 (mt (law.2 fits 3 (by decide)).1 undecided)
  have cursor := Nat.le_antisymm (Nat.le_of_lt_succ last) first
  exact ⟨early, late, same fits, UInt64.toNat_inj.1 cursor⟩

def overlong : Claim := ⟨1, 50, .callExecuted ⟨List.replicate 65536 0⟩ 0⟩

theorem overlongUnbearable : ¬ overlong.Bearable := by
  intro bearable
  have short : (List.replicate 65536 (0 : UInt8)).length ≤ Observing.longestScope := bearable.scope
  rw [List.length_replicate] at short
  exact absurd short (by decide)

def overlongChronicle : History where
  claims := [overlong]
  numbered := rfl
  sound c member := by
    rw [List.mem_singleton.1 member]
    rfl

def overlongSubmission : Submission := ⟨⟨102, 3⟩, ⟨⟨"orch"⟩, []⟩, overlong⟩

theorem overlongUnobserved :
    Run opened ∧ (∀ d ∈ opened.deeds, d.order.prepares = true) ∧ opened.store.totalPower ≠ 0 ∧
      Interleaves opened.store overlongChronicle (fun _ => 1) 102 [overlongSubmission] ∧
      opened.store.Decided (fun _ => 1) 1 ∧
      ¬ 1 ≤ (opened.submitAll [overlongSubmission]).store.observedNonce.toNat := by
  obtain ⟨prepares, known, powered, decided⟩ :
      (∀ d ∈ opened.deeds, d.order.prepares = true) ∧ opened.store.validatorOf.keys = [⟨"orch"⟩] ∧
        opened.store.totalPower ≠ 0 ∧ opened.store.Decided (fun _ => 1) 1 := by
    decide +kernel
  have interleaved : Interleaves opened.store overlongChronicle (fun _ => 1) 102 [overlongSubmission] := by
    refine ⟨?_, ?_, fun o _ => Nat.le_refl 1, ?_⟩
    · intro x inside
      rw [List.mem_singleton.1 inside]
      rfl
    · intro x inside
      rw [known, List.mem_singleton.1 inside]
      exact List.mem_singleton_self _
    · intro o inside
      rw [known] at inside
      rw [List.mem_singleton.1 inside]
      rfl
  refine ⟨openedRun, prepares, powered, interleaved, decided, fun past => overlongUnbearable ?_⟩
  exact openedRun.bearable prepares powered interleaved (List.mem_singleton_self overlong) past

end Journal

end TokenBridge
