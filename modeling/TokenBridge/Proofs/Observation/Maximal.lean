import TokenBridge.Proofs.Observation.Completion
import TokenBridge.Proofs.Stakes.TotalPower
import Mathlib.Data.List.Perm.Subperm
/-!
How far a pass goes. It takes at each nonce the first content by fingerprint that is decided, marks it and nothing else,
and ends only where the next nonce has none: no effect reopens what was decided or takes away what decides.
-/
namespace TokenBridge

open TokenBridge.Action

variable {s t u : Store} {block : Block} {view : StakeView} {os : List Observation} {nonce : UInt64}
  {fingerprint : Word} {a : Attestation} {fuel : Nat}

def Store.ahead (s : Store) : Nat :=
  s.attestations.entries.countP fun e => !e.2.observed && Counter.below s.observedNonce e.1.1

namespace Observing

structure Foremost (view : StakeView) (s : Store) (nonce : UInt64) (fingerprint : Word) (a : Attestation) : Prop where
  here : s.attestations.get? (nonce, fingerprint) = some a
  fresh : a.observed = false
  decided : Power.threshold ≤ (view.share s a.votes (view.total s)).toNat
  first : ∀ p b, s.attestations.get? (nonce, p) = some b → b.observed = false →
    Power.threshold ≤ (view.share s b.votes (view.total s)).toNat →
    p = fingerprint ∨ Key.before fingerprint p = true

theorem winnerForemost (won : winner view s nonce (view.total s) = some (fingerprint, a)) :
    Foremost view s nonce fingerprint a := by
  obtain ⟨here, fresh, decided⟩ := winnerFound won
  refine ⟨here, fresh, decided, fun p b other unobserved passes => ?_⟩
  obtain ⟨⟨⟨n, q⟩, c⟩, found, same⟩ := Option.map_eq_some_iff.1 won
  cases same
  obtain ⟨_, early, late, split, refused⟩ := List.find?_eq_some_iff_append.1 found
  have atNonce : n = nonce := by
    have member := List.mem_filter.1 (List.mem_of_find?_eq_some found)
    simpa using member.2
  subst atNonce
  have ascending := (s.attestations.filter fun k _ => k.1 = n).ascending
  have listed : ((n, p), b) ∈ (s.attestations.filter fun k _ => k.1 = n).entries :=
    List.mem_filter.2 ⟨SortedMap.getIff.1 other, by simp⟩
  rw [split] at ascending listed
  -- What stands before the one that was found was refused, and what stands after it has a later fingerprint.
  rcases List.mem_append.1 listed with sooner | later
  · have refused := refused _ sooner
    simp [unobserved, Nat.ble_eq_true_of_le passes] at refused
  · rcases List.mem_cons.1 later with same | later
    · cases same
      exact .inl rfl
    · have after := (List.pairwise_cons.1 (List.pairwise_append.1 ascending).2.1).1 _ later
      rcases Key.pairBeforeIff.1 after with lower | ⟨_, later⟩
      · rw [Key.irrefl] at lower
        cases lower
      · exact .inr later

theorem passInTurn (pass : Pass view block s os t) :
    os.map (fun o => o.nonce.toNat) = List.range' (s.observedNonce.toNat + 1) os.length := by
  induction pass with
  | rest => rfl
  | @observe s u t nonce fingerprint a e later _ next _ effect _ ih =>
    have moved : u.observedNonce = nonce := (takeEffectMoves effect).votes.observedNonce
    have succ := Counter.nextVal next
    rw [moved, succ] at ih
    rw [List.map_cons, ih, List.length_cons, List.range'_succ, succ]

theorem passAttestations (pass : Pass view block s os t) (k : UInt64 × Word) :
    t.attestations.get? k =
      if k ∈ os.map (fun o => (o.nonce, o.fingerprint)) then
        (s.attestations.get? k).map fun a => { a with observed := true }
      else s.attestations.get? k := by
  induction pass with
  | rest => rfl
  | @observe s u t nonce fingerprint a e later _ _ won effect _ ih =>
    have marked : u.attestations = s.attestations.insert (nonce, fingerprint) { a with observed := true } :=
      (takeEffectMoves effect).votes.attestations
    rw [ih, marked, List.map_cons]
    by_cases same : (nonce, fingerprint) = k
    · subst same
      rw [SortedMap.getInsertSelf, (winnerFound won).1]
      simp
    · rw [SortedMap.getInsertOther _ _ same]
      simp [Ne.symm same]

theorem passForemost {earlier later : List Observation} {o : Observation}
    (pass : Pass view block s (earlier ++ o :: later) t) :
    ∃ u a, Pass view block s earlier u ∧
      (∀ p, u.attestations.get? (o.nonce, p) = s.attestations.get? (o.nonce, p)) ∧
      Foremost view u o.nonce o.fingerprint a ∧ o.claim = a.claim ∧ o.votes = a.votes.length := by
  obtain ⟨u, before, after⟩ := passSplit pass
  cases after with
  | @observe _ _ _ nonce _ a _ _ _ next won _ _ =>
    refine ⟨u, a, before, fun p => ?_, winnerForemost won, rfl, rfl⟩
    have succ := Counter.nextVal next
    have cursor := (passCounts before).2
    have inTurn := passInTurn before
    rw [passAttestations before, if_neg]
    intro marked
    obtain ⟨o, inside, same⟩ := List.mem_map.1 marked
    have listed : o.nonce.toNat ∈ earlier.map fun o => o.nonce.toNat := List.mem_map_of_mem inside
    have sameNonce : o.nonce = nonce := congrArg Prod.fst same
    rw [inTurn, List.mem_range'_1, sameNonce] at listed
    omega

theorem passFew (pass : Pass view block s os t) : os.length ≤ s.ahead := by
  have inTurn := passInTurn pass
  have distinct : (os.map fun o => (o.nonce, o.fingerprint)).Nodup := by
    refine List.Nodup.of_map (fun k => k.1.toNat) ?_
    rw [List.map_map]
    exact inTurn ▸ List.nodup_range'
  have ahead : (os.map fun o => (o.nonce, o.fingerprint)) ⊆
      (s.attestations.entries.filter fun e =>
        !e.2.observed && Counter.below s.observedNonce e.1.1).map Prod.fst := by
    intro k listed
    obtain ⟨o, inside, rfl⟩ := List.mem_map.1 listed
    obtain ⟨earlier, later, rfl⟩ := List.append_of_mem inside
    obtain ⟨u, a, _, same, foremost, _⟩ := passForemost pass
    have here := foremost.here
    rw [same] at here
    have above : o.nonce.toNat ∈ (earlier ++ o :: later).map fun o => o.nonce.toNat := List.mem_map_of_mem inside
    rw [inTurn, List.mem_range'_1] at above
    refine List.mem_map.2 ⟨((o.nonce, o.fingerprint), a), List.mem_filter.2 ⟨SortedMap.getIff.1 here, ?_⟩, rfl⟩
    simp only [foremost.fresh, Counter.below, Bool.not_false, Bool.true_and, Nat.blt_eq]
    omega
  have within := (distinct.subperm ahead).length_le
  rw [List.length_map, List.length_map, ← List.countP_eq_length_filter] at within
  exact within

structure FullPass (view : StakeView) (block : Block) (s : Store) (os : List Observation) (t : Store) : Prop where
  cursor : t.observedNonce.toNat = s.observedNonce.toNat + os.length
  inTurn : os.map (fun o => o.nonce.toNat) = List.range' (s.observedNonce.toNat + 1) os.length
  few : os.length ≤ s.ahead
  foremost : ∀ earlier o later, os = earlier ++ o :: later → ∃ u a, Pass view block s earlier u ∧
    StakesKept s u ∧ (∀ p, u.attestations.get? (o.nonce, p) = s.attestations.get? (o.nonce, p)) ∧
    Foremost view u o.nonce o.fingerprint a ∧ o.claim = a.claim ∧ o.votes = a.votes.length
  marked : ∀ k, t.attestations.get? k =
    if k ∈ os.map (fun o => (o.nonce, o.fingerprint)) then
      (s.attestations.get? k).map fun a => { a with observed := true }
    else s.attestations.get? k
  undecided : view.total t = 0 ∨ ∀ n p a, n.toNat = t.observedNonce.toNat + 1 →
    t.attestations.get? (n, p) = some a → a.observed = false →
    (view.share t a.votes (view.total t)).toNat < Power.threshold

/-- Where the nonces do not run out and no effect that it comes to halts, the loop ends by itself after a full pass, in
fewer steps than there are unobserved attestations ahead, and right after it finds nothing to do. -/
theorem observesFully (view : StakeView) (block : Block) (s : Store)
    (room : s.observedNonce.toNat + s.attestations.values.length + 1 < UInt64.size)
    (spared : ∀ os u k a, Pass view block s os u → due? view u = some (k, a) →
      ∀ halt v, ¬ Halts (takeEffect block a.claim) (mark k.1 k.2 a u) halt v) :
    ∃ os t, Yields (observe view block) s os t ∧
      (∀ fuel, os.length < fuel → Yields (observeUpTo view block fuel) s os t) ∧
      FullPass view block s os t ∧
      ∀ later, Yields (observe view later) t [] t := by
  have onward : ∀ os u, Pass view block s os u → ∃ m, Counter.next? u.observedNonce = some m := by
    intro os u pass
    obtain ⟨count, cursor⟩ := passCounts pass
    have few : unobserved s ≤ s.attestations.values.length := List.countP_le_length
    exact Counter.nextRoom (by omega)
  rcases yieldsOrHalts (observe view block) s with ⟨os, t, done⟩ | ⟨halt, t, stopped⟩
  · obtain ⟨pass, quiet⟩ := observeEnds done
    have next := onward os t pass
    refine ⟨os, t, done, fun fuel enough => observeUpToPasses pass quiet (.inr next) enough, ?full,
      fun later => observePasses (.rest t) quiet (.inr next)⟩
    constructor
    case cursor => exact (passCounts pass).2
    case inTurn => exact passInTurn pass
    case few => exact passFew pass
    case foremost =>
      rintro earlier o later rfl
      obtain ⟨u, a, before, rest⟩ := passForemost pass
      exact ⟨u, a, before, passStakes before, rest⟩
    case marked => exact passAttestations pass
    case undecided => exact dueNone.1 quiet
  · obtain ⟨os, u, pass, stopped⟩ := observeHalts.1 stopped
    rcases observeNextHalts.1 stopped with ⟨_, last, _⟩ | ⟨n, p, a, due, effect⟩
    · obtain ⟨m, next⟩ := onward os u pass
      rw [last] at next
      cases next
    · exact absurd effect (spared os u (n, p) a pass due halt t)

def evenStakes : StakeView where
  total _ := 1
  stakeOf _ _ := 1
  staked _ := []

/-- Behind the cursor one content is observed. At the next nonce the first has no vote and the other two are decided, at
the one after that one is, and then comes a gap. -/
def backlog : Store :=
  { Store.empty with
    observedNonce := 4
    attestations := [((4, .ofNat 7), heard 4 ["alpha"] true), ((5, .ofNat 1), heard 5 [] false),
      ((5, .ofNat 2), heard 5 ["alpha"] false), ((5, .ofNat 3), heard 5 ["beta"] false),
      ((6, .ofNat 1), heard 6 ["beta"] false), ((8, .ofNat 1), heard 8 ["alpha"] false)].foldl
        (fun table (key, a) => table.insert key a) ∅ }
where
  heard (nonce : UInt64) (voters : List String) (observed : Bool) : Attestation :=
    ⟨⟨nonce, 50, .callExecuted ⟨[]⟩ nonce⟩, voters.map Account.mk, observed, 100⟩

theorem backlogObserved :
    backlog.observedNonce.toNat + backlog.attestations.values.length + 1 < UInt64.size ∧
    (∀ os u k a, Pass evenStakes ⟨113, 14⟩ backlog os u → due? evenStakes u = some (k, a) →
      ∀ halt v, ¬ Halts (takeEffect ⟨113, 14⟩ a.claim) (mark k.1 k.2 a u) halt v) ∧
    backlog.ahead = 5 ∧
    ∃ os t, Yields (observe evenStakes ⟨113, 14⟩) backlog os t ∧ FullPass evenStakes ⟨113, 14⟩ backlog os t ∧
      os.map (fun o => (o.nonce, o.fingerprint)) = [(5, .ofNat 2), (6, .ofNat 1)] ∧
      t.observedNonce = 6 ∧ t.attestations.get? (5, .ofNat 3) = backlog.attestations.get? (5, .ofNat 3) ∧
      Yields (observe evenStakes ⟨114, 15⟩) t [] t := by
  obtain ⟨room, ahead, calls, taken⟩ :
      backlog.observedNonce.toNat + backlog.attestations.values.length + 1 < UInt64.size ∧
      backlog.ahead = 5 ∧
      (∀ e ∈ backlog.attestations.entries, e.2.claim.event = .callExecuted ⟨[]⟩ e.1.1) ∧
      ((observe evenStakes ⟨113, 14⟩).commit backlog).1.toOption.map
        (List.map fun o => (o.nonce, o.fingerprint)) = some [(5, .ofNat 2), (6, .ofNat 1)] := by
    decide +kernel
  have spared : ∀ os u k a, Pass evenStakes ⟨113, 14⟩ backlog os u → due? evenStakes u = some (k, a) →
      ∀ halt v, ¬ Halts (takeEffect ⟨113, 14⟩ a.claim) (mark k.1 k.2 a u) halt v := by
    rintro os u ⟨n, p⟩ a pass due halt v stopped
    obtain ⟨b, found, same⟩ := passClaims pass (winnerFound (dueIff.1 due).2.2).1
    refine (takeEffectHalts stopped).2 ?_
    rw [← same, calls _ (SortedMap.getIff.1 found)]
    exact Nat.zero_le _
  obtain ⟨os, t, done, _, full, quiet⟩ := observesFully evenStakes ⟨113, 14⟩ backlog room spared
  rw [committed.2 done] at taken
  have taken : os.map (fun o => (o.nonce, o.fingerprint)) = [(5, .ofNat 2), (6, .ofNat 1)] := Option.some.inj taken
  refine ⟨room, spared, ahead, os, t, done, full, taken, ?cursor, ?other, quiet _⟩
  case cursor =>
    have two : os.length = 2 := by simpa using congrArg List.length taken
    refine UInt64.toNat_inj.1 ?_
    rw [full.cursor, two]
    rfl
  case other =>
    rw [full.marked, taken, if_neg]
    decide +kernel

end Observing

end TokenBridge
