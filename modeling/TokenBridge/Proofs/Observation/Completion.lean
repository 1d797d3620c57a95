import TokenBridge.Proofs.Escrow.Supply
import TokenBridge.Proofs.Observation.Loop
/-!
When processing completes. A due claim is marked observed whatever its effect reports, unless the numbers of the
effect do not fit: the escrow of an executed batch, the locked balance that it is added to, or the length
of a scope. Such a claim stays in the way; where no more than an amount was ever brought in under any name and
all scopes are short, there is none.
-/
namespace TokenBridge

open TokenBridge.Action

variable {s t u : Store} {block : Block} {halt : Halt} {os : List Observation}

def Store.Bears (s : Store) : Event → Prop
  | .batchExecuted nonce token => ∀ b, s.batches.get? (token, nonce) = some b →
      b.weight < Amount.size ∧ ∀ p, s.pairings.get? token = some p → p.ofThisChain = true →
        (s.locked.getD p.asset.key .zero).val + b.weight < Amount.size
  | .callExecuted scope _ => scope.bytes.length ≤ Observing.longestScope
  | _ => True

namespace Batching

theorem dissolveHalts {token : Address} {nonce : UInt64} (h : Halts (dissolve token nonce) s halt t) :
    s.batches.get? (token, nonce) = none := by
  simp only [dissolve, haltsBind, haltsGet, haltsSomeOr, haltsModify, yieldsGet, and_false,
    exists_false, or_false, false_or] at h
  obtain ⟨_, _, ⟨rfl, rfl⟩, missing, _⟩ := h
  exact missing

theorem dissolvesComplete {α : Type} {xs : List α} {token : α → Address} {nonce : α → UInt64}
    (distinct : (xs.map fun x => (token x, nonce x)).Nodup)
    (stored : ∀ x ∈ xs, ∃ b, s.batches.get? (token x, nonce x) = some b) :
    ¬ Halts (forM xs fun x => dissolve (token x) (nonce x)) s halt t := by
  induction xs generalizing s with
  | nil => exact haltsPure
  | cons x rest ih =>
    obtain ⟨apart, others⟩ := List.nodup_cons.1 distinct
    rw [haltsForMCons]
    rintro (stopped | ⟨u, first, later⟩)
    · obtain ⟨b, found⟩ := stored x (List.mem_cons_self ..)
      rw [dissolveHalts stopped] at found
      cases found
    · refine ih others (fun y inRest => ?_) later
      obtain ⟨b, found⟩ := stored y (List.mem_cons_of_mem _ inRest)
      refine ⟨b, dissolveSpares first (fun same => apart ?_) found⟩
      exact List.mem_map.2 ⟨y, inRest, same.symm⟩

theorem olderDistinct {token : Address} {nonce : UInt64} : (olderThan s token nonce).Nodup := by
  have ofToken : ∀ k ∈ (s.batches.filter fun k _ => k.1 = token && Counter.below k.2 nonce).keys, k.1 = token := by
    intro k member
    obtain ⟨b, found⟩ := SortedMap.memKeys.1 member
    rw [SortedMap.getFilter] at found
    obtain ⟨_, older⟩ := Option.filter_eq_some_iff.1 found
    simp only [Bool.and_eq_true, decide_eq_true_eq] at older
    exact older.1
  refine List.Nodup.map_on ?_ (SortedMap.keysNodup _)
  intro k first l second same
  exact Prod.ext ((ofToken k first).trans (ofToken l second).symm) same

theorem settleHalts {p : Pairing} {total : Amount} (h : Halts (settle p total) s halt t) :
    halt = .overflow ∧ p.ofThisChain = true ∧
      Amount.size ≤ (s.locked.getD p.asset.key .zero).val + total.val := by
  unfold settle at h
  split at h
  · rename_i ours
    simp only [haltsBind, haltsGet, haltsInRange, haltsSet, haltsPure, yieldsGet, and_false,
      exists_false, or_false, false_or] at h
    obtain ⟨_, _, ⟨rfl, rfl⟩, large, same, _⟩ := h
    exact ⟨same, ours, addNone large⟩
  · split at h
    · exact absurd h haltsPure
    · exact absurd h haltsPure

theorem executedHalts {token : Address} {nonce : UInt64} (h : Halts (executed token nonce) s halt t) :
    halt = .overflow ∧ ¬ s.Bears (.batchExecuted nonce token) := by
  simp only [executed, haltsBind, haltsGet, yieldsGet, false_or] at h
  obtain ⟨_, _, ⟨rfl, rfl⟩, h⟩ := h
  split at h
  · exact absurd h haltsPure
  · rename_i b found
    simp only [haltsBind, haltsModify, haltsInRange, haltsGet, yieldsModify, yieldsInRange, yieldsGet,
      List.forM_eq_forM, false_or] at h
    rcases h with stopped | ⟨_, u, older, _, _, rfl, ⟨large, rfl, _⟩ | ⟨total, _, ⟨sum, rfl⟩, _, _,
      ⟨rfl, rfl⟩, last⟩⟩
    · refine absurd stopped (dissolvesComplete ?_ fun n older => (memOlder.1 older).1)
      exact olderDistinct.map fun _ _ same => congrArg Prod.snd same
    · refine ⟨rfl, fun bears => ?_⟩
      exact Nat.not_le_of_lt (bears b found).1 (batchTotalNone large)
    · obtain ⟨_, pairings, locked⟩ := (clearedMoves nonce older).books
      rw [pairings] at last
      split at last
      · exact absurd last haltsPure
      · rename_i p paired
        obtain ⟨rfl, ours, large⟩ := settleHalts last
        rw [locked, batchTotal sum] at large
        exact ⟨rfl, fun bears => Nat.not_le_of_lt ((bears b found).2 p paired ours) large⟩

theorem executedBears {token : Address} {nonce : UInt64} {e : Effect}
    (h : Yields (executed token nonce) s e t) : s.Bears (.batchExecuted nonce token) := by
  intro b found
  rcases executedYields h with ⟨missing, _⟩ | ⟨c, u, total, found', sum, older, last⟩
  · rw [missing] at found
    cases found
  · rw [found] at found'
    cases found'
    have whole : total.val = b.weight := batchTotal sum
    refine ⟨whole ▸ total.bound, fun p paired ours => ?_⟩
    obtain ⟨_, pairings, locked⟩ := (clearedMoves nonce older).books
    rw [pairings, paired] at last
    rcases settleYields last with ⟨_, after, added, _⟩ | ⟨foreign, _⟩
    · rw [locked] at added
      rw [← whole, ← addVal added]
      exact after.bound
    · rw [foreign] at ours
      cases ours

end Batching

namespace Registry

theorem deployedCompletes {denom : String} {token : Address} :
    ¬ Halts (deployed denom token) s halt t := by
  simp only [deployed, haltsBind, haltsGet, yieldsGet, false_or]
  rintro ⟨_, _, ⟨rfl, rfl⟩, h⟩
  split at h
  · exact haltsPure h
  · simp at h

theorem depositedCompletes {nonce : UInt64} {token : Address} {amount : Amount} {receiver : String} :
    ¬ Halts (deposited nonce token amount receiver) s halt t := by
  intro h
  unfold deposited at h
  split at h
  · exact haltsPure h
  · simp only [haltsBind, haltsGet, yieldsGet, false_or] at h
    obtain ⟨_, _, ⟨rfl, rfl⟩, h⟩ := h
    split at h
    · unfold payOut at h
      split at h
      · simp only [haltsBind, haltsGet, yieldsGet, false_or] at h
        obtain ⟨_, _, ⟨rfl, rfl⟩, h⟩ := h
        split at h
        · exact haltsPure h
        · simp at h
      · split at h
        · exact haltsPure h
        · exact haltsPure h
    · simp at h

end Registry

namespace Observing

theorem takeEffectHalts {claim : Claim} (h : Halts (takeEffect block claim) s halt t) :
    halt = .overflow ∧ ¬ s.Bears claim.event := by
  unfold takeEffect at h
  split at h
  · exact absurd h Registry.depositedCompletes
  · rename_i kind
    rw [kind]
    exact Batching.executedHalts h
  · rename_i scope nonce kind
    rw [kind]
    simp only [callExecuted, haltsBind, haltsInRange, haltsModify, haltsPure, and_false, exists_false,
      or_false] at h
    obtain ⟨long, rfl, _⟩ := h
    refine ⟨rfl, fun short : scope.bytes.length ≤ longestScope => ?_⟩
    rw [if_pos short] at long
    cases long
  · exact absurd h Registry.deployedCompletes
  · simp [SignerSet.installed] at h

theorem takeEffectBears {claim : Claim} {e : Effect} (h : Yields (takeEffect block claim) s e t) :
    s.Bears claim.event := by
  unfold takeEffect at h
  cases kind : claim.event with
  | deposit => trivial
  | batchExecuted nonce token =>
    rw [kind] at h
    exact Batching.executedBears h
  | callExecuted scope nonce =>
    rw [kind] at h
    exact (callExecutedYields h).1
  | tokenDeployed => trivial
  | signersUpdated => trivial

theorem markBears {nonce : UInt64} {fingerprint : Word} {a : Attestation} {event : Event} :
    (mark nonce fingerprint a s).Bears event ↔ s.Bears event := by
  cases event <;> rfl

theorem submitHalts {caller : Caller} {claim : Claim} {v : Account} {c : Config}
    (sound : claim.fault? = none) (bound : s.validatorOf.get? caller.sender = some v)
    (configured : s.config = some c) (h : Halts (submit block caller claim) s halt t) :
    Halts (Voting.cast c.conflictPolicy v claim block.height) s halt t ∨
    ∃ a u, Yields (Voting.cast c.conflictPolicy v claim block.height) s a u ∧
      Halts (observe .stored block) u halt t := by
  simpa [submit, Directory.validatorOf, Action.config, refuseIf, sound, bound, configured] using h

theorem processHalts : Halts (process block) s halt t ↔ Halts (observe .stored block) s halt t := by
  simp [process]

theorem processEnds {r : Response} (h : Yields (process block) s r t) :
    Yields (observe .stored block) s r.observations t := by
  simp only [process, yieldsBind, yieldsPure] at h
  obtain ⟨os, _, observed, rfl, rfl⟩ := h
  exact observed

theorem processStops (h : Halts (process block) s halt t) :
    halt = .overflow ∧
      (s.observedNonce.toNat + s.attestations.values.length + 1 < UInt64.size →
        ∃ os u e, Pass .stored block s os u ∧ due? .stored u = some e ∧
          ¬ u.Bears e.2.claim.event) := by
  obtain ⟨os, u, pass, stopped⟩ := observeHalts.1 (processHalts.1 h)
  rcases observeNextHalts.1 stopped with ⟨_, last, overflow, _⟩ | ⟨n, p, a, due, effect⟩
  · refine ⟨overflow, fun room => ?_⟩
    obtain ⟨count, cursor⟩ := passCounts pass
    have few : unobserved s ≤ s.attestations.values.length := List.countP_le_length
    unfold Counter.next? at last
    rw [if_pos (by omega)] at last
    cases last
  · obtain ⟨overflow, unborne⟩ := takeEffectHalts effect
    exact ⟨overflow, fun _ => ⟨os, u, _, pass, due, fun bears => unborne (markBears.2 bears)⟩⟩

theorem processCompletes
    (room : s.observedNonce.toNat + s.attestations.values.length + 1 < UInt64.size) :
    (∃ r t, (process block).commit s = (.ok r, t)) ↔
      ∀ os u, Pass .stored block s os u → ∀ e, due? .stored u = some e →
        u.Bears e.2.claim.event := by
  constructor
  · rintro ⟨r, t, done⟩ os u pass ⟨⟨n, p⟩, a⟩ due
    have completes := committed.1 done
    rcases yieldsOrHalts (takeEffect block a.claim) (mark n p a u) with
      ⟨e, v, effect⟩ | ⟨halt, v, effect⟩
    · exact markBears.1 (takeEffectBears effect)
    · have stopped := observeNextHalts.2 (.inr ⟨n, p, a, due, effect⟩)
      exact absurd (processHalts.2 (observeHalts.2 ⟨os, u, pass, stopped⟩)) completes.unhalted
  · intro borne
    rcases yieldsOrHalts (process block) s with ⟨r, t, done⟩ | ⟨halt, t, stopped⟩
    · exact ⟨r, t, committed.2 done⟩
    · obtain ⟨os, u, e, pass, due, unborne⟩ := (processStops stopped).2 room
      exact absurd (borne os u pass e due) unborne

theorem passClaims {view : StakeView} (pass : Pass view block s os t) {k : UInt64 × Word}
    {a : Attestation} (found : t.attestations.get? k = some a) :
    ∃ b, s.attestations.get? k = some b ∧ b.claim = a.claim := by
  induction pass with
  | rest => exact ⟨a, found, rfl⟩
  | @observe s u t nonce fingerprint c e later _ _ won effect _ ih =>
    obtain ⟨here, _, _⟩ := winnerFound won
    obtain ⟨b, found, same⟩ := ih found
    rw [(takeEffectMoves effect).votes.attestations, mark, SortedMap.getInsert] at found
    split at found
    · rename_i atKey
      cases found
      exact ⟨c, atKey ▸ here, same⟩
    · exact ⟨b, found, same⟩

end Observing

def Event.ScopeFits : Event → Prop
  | .callExecuted scope _ => scope.bytes.length ≤ Observing.longestScope
  | _ => True

theorem Store.Bears.scope {event : Event} (bears : s.Bears event) : event.ScopeFits := by
  cases event with
  | callExecuted scope nonce => exact bears
  | deposit => trivial
  | batchExecuted => trivial
  | tokenDeployed => trivial
  | signersUpdated => trivial

theorem Observing.passScopes {view : StakeView} (pass : Pass view block s os t) :
    ∀ o ∈ os, o.claim.event.ScopeFits := by
  induction pass with
  | rest => exact fun o found => nomatch found
  | observe _ _ _ effect _ ih =>
    intro o found
    rcases List.mem_cons.1 found with rfl | later
    · exact (takeEffectBears effect).scope
    · exact ih o later

theorem Holding.bears {event : Event} (h : Holding s) (reg : Registered (fun _ => True) s)
    (supply : ∀ name, s.heldUnder name < Amount.size) (fits : event.ScopeFits) : s.Bears event := by
  cases event with
  | batchExecuted nonce token =>
    intro b found
    cases paired : s.pairings.get? token with
    | none =>
      have weightless : b.weight = 0 := by
        rw [Batch.weight, h.batchEmpty reg found paired]
        rfl
      exact ⟨by rw [weightless]; decide, fun _ none => nomatch none⟩
    | some p =>
      have within := h.batchWithin reg found paired
      have bound := supply p.asset.key
      refine ⟨by omega, fun q same _ => ?_⟩
      cases same
      exact Nat.lt_of_le_of_lt within bound
  | callExecuted scope nonce => exact fits
  | deposit => trivial
  | tokenDeployed => trivial
  | signersUpdated => trivial

namespace Journal

variable {j : Journal}

/-- Processing completes just if the numbers of every claim in its way fit; otherwise it halts on a number and all
stays. -/
theorem Run.processingCompletes (run : Run j) (block : Block)
    (room : j.store.observedNonce.toNat + j.store.attestations.values.length + 1 < UInt64.size) :
    ((∃ r t, (Observing.process block).commit j.store = (.ok r, t)) ↔
      ∀ os u, Observing.Pass .stored block j.store os u →
        ∀ e, Observing.due? .stored u = some e → u.Bears e.2.claim.event) ∧
    ((∀ name, j.broughtUnder name < Amount.size) →
      (∀ k a, j.store.attestations.get? k = some a → a.claim.event.ScopeFits) →
      ∃ r t, (Observing.process block).commit j.store = (.ok r, t)) ∧
    (∀ r t, (Observing.process block).commit j.store = (.ok r, t) →
      Observing.Pass .stored block j.store r.observations t ∧ Observing.due? .stored t = none ∧
      t.observedNonce.toNat = j.store.observedNonce.toNat + r.observations.length ∧
      ∀ o ∈ r.observations, t.ObservedAt o.nonce o.fingerprint) ∧
    ∀ halt t, (Observing.process block).commit j.store = (.error halt, t) →
      halt = .overflow ∧ t = j.store := by
  refine ⟨Observing.processCompletes room, fun supply scopes => ?_, fun r t done => ?_,
    fun halt t stopped => ?_⟩
  · refine (Observing.processCompletes room).2 fun os u pass ⟨⟨n, p⟩, a⟩ due => ?_
    have holding := run.accounted.holding
    have reg : Registered (fun _ => True) j.store := run.registered fun _ _ => trivial
    obtain ⟨b, attested, same⟩ := Observing.passClaims pass (Observing.winnerFound
      (Observing.dueIff.1 due).2.2).1
    have fits := scopes _ b attested
    rw [same] at fits
    refine (Observing.passHolding holding pass).bears
      (Observing.passRegistered holding reg (fun _ _ _ _ => trivial) pass) (fun name => ?_) fits
    have within := Nat.le_trans (Observing.passHeldUnder holding reg pass name) (run.heldUnder name)
    exact Nat.lt_of_le_of_lt within (supply name)
  · obtain ⟨pass, quiet⟩ := Observing.observeEnds (Observing.processEnds (Action.committed.1 done))
    exact ⟨pass, quiet, (Observing.passCounts pass).2, (Observing.passMarks pass).2⟩
  · obtain ⟨same, _, stopped⟩ := haltedIff.1 stopped
    exact ⟨(Observing.processStops stopped).1, same⟩

def voteBelated (j : Journal) (claim : Claim) : Journal :=
  j.deliverAll
    [(⟨110, 11⟩, .execute ⟨⟨"admin"⟩, []⟩ (.updatePowers [⟨"other", 10⟩])),
      (⟨111, 12⟩, .execute ⟨⟨"orch"⟩, []⟩ (.submitClaim claim)),
      (⟨112, 13⟩, .execute ⟨⟨"admin"⟩, []⟩ (.updatePowers [⟨"other", 0⟩]))]

theorem Run.voteBelated (run : Run j) (claim : Claim) : Run (j.voteBelated claim) :=
  run.deliverAll (by simp [Order.setsUp])

def misdirected : Journal :=
  opened.voteBelated ⟨1, 50, .deposit .zero (.small 100) .zero "NOBODY"⟩

theorem misdirectedObserved :
    misdirected.store.observedNonce = 0 ∧
      ∃ r t, (Observing.process ⟨113, 14⟩).commit misdirected.store = (.ok r, t) ∧
        t.observedNonce ≠ 0 := by
  have run : Run misdirected := openedRun.voteBelated _
  obtain ⟨cursor, room, due, deposits, unbringing⟩ :
      misdirected.store.observedNonce = 0 ∧
      misdirected.store.observedNonce.toNat + misdirected.store.attestations.values.length + 1 <
        UInt64.size ∧
      (Observing.due? .stored misdirected.store).isSome = true ∧
      (∀ e ∈ misdirected.store.attestations.entries,
        e.2.claim.event = .deposit .zero ⟨100, by decide⟩ .zero "NOBODY") ∧
      ∀ d ∈ misdirected.deeds, d.order.brings = [] := by
    decide +kernel
  obtain ⟨_, completes, completed, _⟩ := Run.processingCompletes run ⟨113, 14⟩ room
  have supply : ∀ name, misdirected.broughtUnder name < Amount.size := fun name => by
    have none : misdirected.broughtUnder name = 0 := List.sum_eq_zero fun n found => by
      obtain ⟨d, done, rfl⟩ := List.mem_map.1 found
      rw [Order.broughtUnder, unbringing d done]
      rfl
    rw [none]
    decide
  obtain ⟨r, t, done⟩ := completes supply fun k a attested => by
    rw [deposits _ (SortedMap.getIff.1 attested)]
    trivial
  refine ⟨cursor, r, t, done, fun unmoved => ?_⟩
  obtain ⟨pass, quiet, advanced, _⟩ := completed r t done
  rw [unmoved, cursor] at advanced
  have none : r.observations = [] := List.length_eq_zero_iff.1 (by simpa using advanced.symm)
  rw [none] at pass
  rw [← Observing.passQuiet pass, quiet] at due
  cases due

/-- The batch of two transfers that together have one more than the largest amount is executed. -/
def swamped : Journal :=
  (paired.deliverAll
    [(⟨103, 4⟩, withdrawal "alice" ⟨Amount.size - 1, by decide⟩ .zero),
      (⟨104, 5⟩, withdrawal "bob" (.small 1) .zero),
      (⟨105, 6⟩, .execute ⟨⟨"carol"⟩, []⟩
        (.requestBatch "0x0000000000000000000000000000000000000000" none))]).voteBelated
    ⟨2, 60, .batchExecuted 1 .zero⟩

theorem swampedHalts :
    Run swamped ∧
      swamped.store.observedNonce.toNat + swamped.store.attestations.values.length + 1 <
        UInt64.size ∧
      (Observing.due? .stored swamped.store).isSome = true ∧
      ¬ ∃ r t, (Observing.process ⟨113, 14⟩).commit swamped.store = (.ok r, t) := by
  have run : Run swamped := (pairedRun.deliverAll (by decide)).voteBelated _
  obtain ⟨room, due, weight⟩ :
      swamped.store.observedNonce.toNat + swamped.store.attestations.values.length + 1 <
        UInt64.size ∧
      (∃ e ∈ Observing.due? .stored swamped.store, e.2.claim.event = .batchExecuted 1 .zero) ∧
      ∃ b ∈ swamped.store.batches.get? (.zero, 1), b.weight = Amount.size := by
    decide +kernel
  obtain ⟨e, due, executes⟩ := due
  obtain ⟨b, stored, weight⟩ := weight
  refine ⟨run, room, Option.isSome_iff_exists.2 ⟨e, due⟩, fun completes => ?_⟩
  have borne := (Observing.processCompletes room).1 completes [] _ (.rest _) e due
  rw [executes] at borne
  have within := (borne b stored).1
  omega

end Journal

end TokenBridge
