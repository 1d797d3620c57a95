import TokenBridge.Proofs.Observation.ExactlyOnce
import TokenBridge.Proofs.Outcome.Halting
import TokenBridge.Proofs.SortedMap.Listing
import Mathlib.Data.List.Count
/-!
How a pass ends. Every observation takes one attestation out of the unobserved and moves the cursor on by one, so
the loop has steps enough to go on until no attestation is due or an effect halts, and more steps come to the same.
-/
namespace TokenBridge.Observing

open TokenBridge.Action

variable {s t u : Store} {block : Block} {view : StakeView} {os : List Observation} {halt : Halt}
  {nonce : UInt64} {fingerprint : Word} {a : Attestation} {fuel : Nat}

def due? (view : StakeView) (s : Store) : Option ((UInt64 × Word) × Attestation) := do
  if view.total s = 0 then none
  else
    let nonce ← Counter.next? s.observedNonce
    let (fingerprint, a) ← winner view s nonce (view.total s)
    return ((nonce, fingerprint), a)

theorem dueIff : due? view s = some ((nonce, fingerprint), a) ↔
    view.total s ≠ 0 ∧ Counter.next? s.observedNonce = some nonce ∧
      winner view s nonce (view.total s) = some (fingerprint, a) := by
  unfold due?
  split
  · rename_i zero
    simp [zero]
  · rename_i powered
    simp only [Option.bind_eq_bind, Option.bind_eq_some_iff, Option.pure_def, Option.some.injEq,
      Prod.mk.injEq]
    constructor
    · rintro ⟨n, next, ⟨p, b⟩, won, ⟨rfl, rfl⟩, rfl⟩
      exact ⟨powered, next, won⟩
    · rintro ⟨_, next, won⟩
      exact ⟨nonce, next, (fingerprint, a), won, ⟨rfl, rfl⟩, rfl⟩

theorem winnerNone {total : UInt64} : winner view s nonce total = none ↔
    ∀ p a, s.attestations.get? (nonce, p) = some a → a.observed = false →
      (view.share s a.votes total).toNat < Power.threshold := by
  simp only [winner, Option.map_eq_none_iff, List.find?_eq_none, SortedMap.filter, List.mem_filter,
    decide_eq_true_eq, Bool.and_eq_true, Bool.not_eq_true', Nat.ble_eq, not_and, Nat.not_le, Prod.forall,
    SortedMap.getIff]
  constructor
  · intro undecided p a here fresh
    exact undecided nonce p a ⟨here, rfl⟩ fresh
  · rintro undecided n p a ⟨here, rfl⟩ fresh
    exact undecided p a here fresh

theorem dueNone : due? view s = none ↔ view.total s = 0 ∨
    ∀ n p a, n.toNat = s.observedNonce.toNat + 1 → s.attestations.get? (n, p) = some a →
      a.observed = false → (view.share s a.votes (view.total s)).toNat < Power.threshold := by
  constructor
  · intro none
    refine or_iff_not_imp_left.2 fun powered n p a next here fresh => ?_
    by_contra decided
    cases won : winner view s n (view.total s) with
    | none => exact decided (winnerNone.1 won p a here fresh)
    | some found =>
      have due := dueIff.2 ⟨powered, Counter.nextIff.2 next, won⟩
      rw [none] at due
      cases due
  · intro undecided
    cases due : due? view s with
    | none => rfl
    | some found =>
      obtain ⟨⟨n, p⟩, a⟩ := found
      obtain ⟨powered, next, won⟩ := dueIff.1 due
      have undecided := winnerNone.2 fun p a => undecided.resolve_left powered n p a (Counter.nextIff.1 next)
      rw [undecided] at won
      cases won

theorem observeNextNone (h : Yields (observeNext view block) s none t) : t = s ∧ due? view s = none := by
  simp only [observeNext, yieldsBind, yieldsGet] at h
  obtain ⟨_, _, ⟨rfl, rfl⟩, h⟩ := h
  unfold due?
  split at h
  · rename_i zero
    rw [if_pos zero]
    exact ⟨(yieldsPure.1 h).2, rfl⟩
  · rename_i powered
    simp only [yieldsBind, yieldsInRange] at h
    obtain ⟨n, _, ⟨next, rfl⟩, h⟩ := h
    rw [if_neg powered]
    split at h
    · rename_i undecided
      refine ⟨(yieldsPure.1 h).2, ?_⟩
      simp [next, undecided]
    · simp only [yieldsBind, yieldsPure] at h
      obtain ⟨_, _, _, _, _, _, none, _⟩ := h
      cases none

theorem observeNextDue {e : Effect} (due : due? view s = some ((nonce, fingerprint), a))
    (effect : Yields (takeEffect block a.claim) (mark nonce fingerprint a s) e t) :
    Yields (observeNext view block) s (some ⟨nonce, fingerprint, a.claim, a.votes.length,
      (mark nonce fingerprint a s).ethHeight, e⟩) t := by
  obtain ⟨powered, next, won⟩ := dueIff.1 due
  simp only [observeNext, yieldsBind, yieldsGet]
  refine ⟨s, s, ⟨rfl, rfl⟩, ?_⟩
  rw [if_neg powered, yieldsBind]
  refine ⟨nonce, s, yieldsInRange.2 ⟨next, rfl⟩, ?_⟩
  rw [won]
  simp only [yieldsBind, yieldsSet, yieldsPure]
  exact ⟨⟨⟩, _, rfl, e, t, effect, rfl, rfl⟩

theorem observeNextHalts : Halts (observeNext view block) s halt t ↔
    (view.total s ≠ 0 ∧ Counter.next? s.observedNonce = none ∧ halt = .overflow ∧ t = s) ∨
    ∃ n p b, due? view s = some ((n, p), b) ∧
      Halts (takeEffect block b.claim) (mark n p b s) halt t := by
  simp only [observeNext, haltsBind, haltsGet, yieldsGet, false_or, dueIff]
  constructor
  · rintro ⟨_, _, ⟨rfl, rfl⟩, h⟩
    split at h
    · exact absurd h haltsPure
    · rename_i powered
      simp only [haltsBind, haltsInRange, yieldsInRange] at h
      rcases h with ⟨last, rfl, rfl⟩ | ⟨n, _, ⟨next, rfl⟩, h⟩
      · exact .inl ⟨powered, last, rfl, rfl⟩
      · split at h
        · exact absurd h haltsPure
        · rename_i p b won
          simp only [haltsBind, haltsSet, haltsPure, yieldsSet, false_or, and_false, exists_false,
            or_false] at h
          obtain ⟨_, _, rfl, stopped⟩ := h
          exact .inr ⟨n, p, b, ⟨powered, next, won⟩, stopped⟩
  · intro h
    refine ⟨s, s, ⟨rfl, rfl⟩, ?_⟩
    rcases h with ⟨powered, last, rfl, rfl⟩ | ⟨n, p, b, ⟨powered, next, won⟩, stopped⟩
    · rw [if_neg powered, haltsBind, haltsInRange]
      exact .inl ⟨last, rfl, rfl⟩
    · rw [if_neg powered, haltsBind]
      refine .inr ⟨n, s, yieldsInRange.2 ⟨next, rfl⟩, ?_⟩
      rw [won]
      simp only [haltsBind, haltsSet, haltsPure, yieldsSet, false_or, and_false, exists_false,
        or_false]
      exact ⟨⟨⟩, _, rfl, stopped⟩

theorem observeNextQuiet (quiet : due? view s = none)
    (room : view.total s = 0 ∨ ∃ m, Counter.next? s.observedNonce = some m) :
    Yields (observeNext view block) s none s := by
  rcases yieldsOrHalts (observeNext view block) s with ⟨o, t, done⟩ | ⟨halt, t, stopped⟩
  · rcases observeNextYields done with ⟨rfl, rfl⟩ | ⟨n, p, a, _, powered, next, won, _⟩
    · exact done
    · rw [dueIff.2 ⟨powered, next, won⟩] at quiet
      cases quiet
  · rcases observeNextHalts.1 stopped with ⟨powered, last, _⟩ | ⟨_, _, _, due, _⟩
    · obtain ⟨m, next⟩ := room.resolve_left powered
      rw [last] at next
      cases next
    · rw [quiet] at due
      cases due

theorem observeUpToEnds (h : Yields (observeUpTo view block fuel) s os t) :
    os.length = fuel ∨ due? view t = none := by
  induction fuel generalizing s os with
  | zero =>
    obtain ⟨rfl, _⟩ := yieldsPure.1 h
    exact .inl rfl
  | succ fuel ih =>
    simp only [observeUpTo, yieldsBind] at h
    obtain ⟨o, u, first, h⟩ := h
    cases o with
    | none =>
      obtain ⟨rfl, quiet⟩ := observeNextNone first
      obtain ⟨rfl, rfl⟩ := yieldsPure.1 h
      exact .inr quiet
    | some o =>
      simp only [yieldsBind, yieldsPure] at h
      obtain ⟨later, _, tail, rfl, rfl⟩ := h
      exact (ih tail).imp_left fun all => by rw [List.length_cons, all]

theorem observeUpToHalts : Halts (observeUpTo view block fuel) s halt t ↔
    ∃ os u, os.length < fuel ∧ Pass view block s os u ∧ Halts (observeNext view block) u halt t := by
  induction fuel generalizing s with
  | zero =>
    refine ⟨fun h => absurd h haltsPure, ?_⟩
    rintro ⟨os, _, short, _⟩
    exact absurd short (Nat.not_lt_zero _)
  | succ fuel ih =>
    simp only [observeUpTo, haltsBind]
    constructor
    · rintro (stopped | ⟨o, u, first, h⟩)
      · exact ⟨[], s, Nat.succ_pos _, .rest s, stopped⟩
      · rcases observeNextYields first with
          ⟨rfl, rfl⟩ | ⟨n, p, b, e, powered, next, won, effect, rfl⟩
        · exact absurd h haltsPure
        · simp only [haltsBind, haltsPure, and_false, exists_false, or_false] at h
          obtain ⟨os, v, short, pass, stopped⟩ := ih.1 h
          exact ⟨_ :: os, v, Nat.succ_lt_succ short, .observe powered next won effect pass, stopped⟩
    · rintro ⟨os, v, short, pass, stopped⟩
      cases pass with
      | rest => exact .inl stopped
      | @observe _ u _ n p b e later powered next won effect after =>
        refine .inr ⟨_, u, observeNextDue (dueIff.2 ⟨powered, next, won⟩) effect, ?_⟩
        have rest := ih.2 ⟨later, v, Nat.lt_of_succ_lt_succ short, after, stopped⟩
        exact haltsBind.2 (.inl rest)

theorem markUnobserved (here : s.attestations.get? (nonce, fingerprint) = some a)
    (fresh : a.observed = false) : unobserved (mark nonce fingerprint a s) + 1 = unobserved s := by
  have before := (SortedMap.valuesErase here).countP_eq fun b : Attestation => !b.observed
  have after := (SortedMap.valuesReplace s.attestations (nonce, fingerprint)
    { a with observed := true }).countP_eq fun b : Attestation => !b.observed
  rw [List.countP_cons_of_pos (by simp [fresh])] at before
  rw [List.countP_cons_of_neg (by simp)] at after
  unfold unobserved
  rw [before]
  exact congrArg (· + 1) after

theorem passCounts (pass : Pass view block s os t) :
    unobserved t + os.length = unobserved s ∧
      t.observedNonce.toNat = s.observedNonce.toNat + os.length := by
  induction pass with
  | rest s => exact ⟨rfl, rfl⟩
  | @observe s u t nonce fingerprint a e later _ next won effect _ ih =>
    obtain ⟨here, fresh, _⟩ := winnerFound won
    have one := markUnobserved here fresh
    have cursor := Counter.nextVal next
    have kept : unobserved u = unobserved (mark nonce fingerprint a s) ∧ u.observedNonce = nonce := by
      obtain ⟨_, _, _, _, _, _, v, ⟨_, _, _, _, rfl⟩, rfl⟩ := takeEffectMoves effect
      exact ⟨rfl, rfl⟩
    obtain ⟨left, last⟩ := ih
    rw [kept.1] at left
    rw [kept.2] at last
    rw [List.length_cons]
    omega

theorem passMarks (pass : Pass view block s os t) :
    (∀ n p, s.ObservedAt n p → t.ObservedAt n p) ∧ ∀ o ∈ os, t.ObservedAt o.nonce o.fingerprint := by
  induction pass with
  | rest s => exact ⟨fun _ _ observed => observed, fun o found => nomatch found⟩
  | @observe s u t nonce fingerprint a e later _ _ _ effect _ ih =>
    have kept : ∀ n p, (mark nonce fingerprint a s).ObservedAt n p → t.ObservedAt n p :=
      fun n p observed => ih.1 n p (by
        rw [Store.observedAtIff, (takeEffectMoves effect).votes.kept.observed,
          ← Store.observedAtIff]
        exact observed)
    refine ⟨fun n p observed => kept n p ?_, fun o found => ?_⟩
    · obtain ⟨c, found⟩ := Store.observedAtIff.1 observed
      rw [Store.observedAtIff, markObserved]
      split
      · exact ⟨_, rfl⟩
      · exact ⟨c, found⟩
    · rcases List.mem_cons.1 found with rfl | later
      · refine kept _ _ ?_
        rw [Store.observedAtIff, markObserved, if_pos rfl]
        exact ⟨_, rfl⟩
      · exact ih.2 o later

theorem observeEnds (h : Yields (observe view block) s os t) :
    Pass view block s os t ∧ due? view t = none := by
  simp only [observe, yieldsBind, yieldsGet] at h
  obtain ⟨_, _, ⟨rfl, rfl⟩, h⟩ := h
  have pass := observeUpToPass h
  have counts := (passCounts pass).1
  exact ⟨pass, (observeUpToEnds h).resolve_left (by omega)⟩

theorem observeHalts : Halts (observe view block) s halt t ↔
    ∃ os u, Pass view block s os u ∧ Halts (observeNext view block) u halt t := by
  simp only [observe, haltsBind, haltsGet, yieldsGet, false_or]
  constructor
  · rintro ⟨_, _, ⟨rfl, rfl⟩, h⟩
    obtain ⟨os, u, _, pass, stopped⟩ := observeUpToHalts.1 h
    exact ⟨os, u, pass, stopped⟩
  · rintro ⟨os, u, pass, stopped⟩
    have counts := (passCounts pass).1
    exact ⟨s, s, ⟨rfl, rfl⟩, observeUpToHalts.2 ⟨os, u, by omega, pass, stopped⟩⟩

theorem observeUpToPasses (pass : Pass view block s os t) (quiet : due? view t = none)
    (room : view.total t = 0 ∨ ∃ m, Counter.next? t.observedNonce = some m) (enough : os.length < fuel) :
    Yields (observeUpTo view block fuel) s os t := by
  induction pass generalizing fuel with
  | rest s =>
    obtain ⟨fuel, rfl⟩ := Nat.exists_eq_add_of_lt enough
    simp only [observeUpTo, yieldsBind]
    exact ⟨none, s, observeNextQuiet quiet room, yieldsPure.2 ⟨rfl, rfl⟩⟩
  | observe powered next won effect _ ih =>
    obtain ⟨fuel, rfl⟩ := Nat.exists_eq_add_of_lt enough
    simp only [observeUpTo, yieldsBind]
    exact ⟨_, _, observeNextDue (dueIff.2 ⟨powered, next, won⟩) effect, yieldsBind.2
      ⟨_, _, ih quiet room (by rw [List.length_cons]; omega), yieldsPure.2 ⟨rfl, rfl⟩⟩⟩

theorem observePasses (pass : Pass view block s os t) (quiet : due? view t = none)
    (room : view.total t = 0 ∨ ∃ m, Counter.next? t.observedNonce = some m) :
    Yields (observe view block) s os t := by
  have counts := (passCounts pass).1
  simp only [observe, yieldsBind, yieldsGet]
  exact ⟨s, s, ⟨rfl, rfl⟩, observeUpToPasses pass quiet room (by omega)⟩

theorem observeRoom (h : Yields (observe view block) s os t) (powered : view.total t ≠ 0) :
    Counter.next? t.observedNonce ≠ none := by
  intro last
  have stopped : Halts (observeNext view block) t .overflow t :=
    observeNextHalts.2 (.inl ⟨powered, last, rfl, rfl⟩)
  exact h.unhalted (observeHalts.2 ⟨os, t, (observeEnds h).1, stopped⟩)

end TokenBridge.Observing
