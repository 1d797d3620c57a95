import TokenBridge.Proofs.Voting.InTurn
import TokenBridge.Proofs.Voting.TwoThirds
import Mathlib.Algebra.Order.BigOperators.Group.List
import Mathlib.Algebra.Order.Group.Nat
/-!
Who votes on what. A history is what happened on Ethereum, nonce after nonce; where every orchestrator has come
to in it says which validators have reached a nonce, and whether their stake decides it.
-/
namespace TokenBridge

open TokenBridge.Action

variable {s t u : Store} {block : Block} {c d : Claim} {v o : Account} {n m : Nat}
  {done further : Account → Nat}

structure History where
  claims : List Claim
  numbered : claims.map (fun c => c.nonce.toNat) = List.range' 1 claims.length
  sound : ∀ c ∈ claims, c.fault? = none

namespace History

variable {history : History}

theorem getIff {i : Nat} : history.claims[i]? = some c ↔ c ∈ history.claims ∧ c.nonce.toNat = i + 1 := by
  have nonceAt : ∀ (k : Nat) (e : Claim), history.claims[k]? = some e → e.nonce.toNat = k + 1 := by
    intro k e found
    obtain ⟨inside, _⟩ := List.getElem?_eq_some_iff.1 found
    have numbered := congrArg (fun l : List Nat => l[k]?) history.numbered
    simp only [List.getElem?_map, found, Option.map_some, List.getElem?_range' inside,
      Option.some.injEq] at numbered
    omega
  constructor
  · intro found
    exact ⟨List.mem_of_getElem? found, nonceAt i c found⟩
  · rintro ⟨member, atNonce⟩
    obtain ⟨k, found⟩ := List.mem_iff_getElem?.1 member
    have same := nonceAt k c found
    rw [show i = k by omega]
    exact found

theorem positive (member : c ∈ history.claims) : 1 ≤ c.nonce.toNat := by
  obtain ⟨k, found⟩ := List.mem_iff_getElem?.1 member
  have atNonce := (getIff.1 found).2
  omega

theorem counted (member : c ∈ history.claims) : c.nonce.toNat ≤ history.claims.length := by
  obtain ⟨k, found⟩ := List.mem_iff_getElem?.1 member
  have atNonce := (getIff.1 found).2
  obtain ⟨inside, _⟩ := List.getElem?_eq_some_iff.1 found
  omega

theorem claimAt (first : 1 ≤ n) (last : n ≤ history.claims.length) :
    ∃ c ∈ history.claims, c.nonce.toNat = n := by
  have inside : n - 1 < history.claims.length := by omega
  obtain ⟨member, atNonce⟩ := getIff.1 (List.getElem?_eq_getElem inside)
  exact ⟨_, member, by omega⟩

theorem alone (first : c ∈ history.claims) (second : d ∈ history.claims) (same : c.nonce = d.nonce) :
    c = d := by
  obtain ⟨k, found⟩ := List.mem_iff_getElem?.1 first
  have atNonce := (getIff.1 found).2
  rw [same] at atNonce
  rw [getIff.2 ⟨second, atNonce⟩] at found
  exact (Option.some.inj found).symm

theorem following {past : List Claim} (inOrder : past ++ [c] <+: history.claims) :
    c ∈ history.claims ∧ c.nonce.toNat = past.length + 1 := by
  obtain ⟨rest, whole⟩ := inOrder
  refine getIff.1 ?_
  rw [← whole]
  simp

theorem takeNext (member : c ∈ history.claims) (next : c.nonce.toNat = n + 1) :
    history.claims.take c.nonce.toNat = history.claims.take n ++ [c] := by
  rw [next, List.take_add_one, getIff.2 ⟨member, next⟩]
  rfl

end History

def Store.reached (s : Store) (done : Account → Nat) (nonce : Nat) : List Account :=
  (s.orchestratorOf.entries.filter fun e => nonce ≤ done e.2).map Prod.fst

def Store.Decided (s : Store) (done : Account → Nat) (nonce : Nat) : Prop :=
  2 * s.totalPower.toNat ≤ 3 * StakeView.stored.stakeOfAll s (s.reached done nonce)

instance (s : Store) (done : Account → Nat) (nonce : Nat) : Decidable (s.Decided done nonce) :=
  inferInstanceAs (Decidable (_ ≤ _))

namespace Store

theorem memReached : v ∈ s.reached done n ↔ ∃ o, s.orchestratorOf.get? v = some o ∧ n ≤ done o := by
  simp only [reached, List.mem_map, List.mem_filter, decide_eq_true_eq, SortedMap.getIff]
  constructor
  · rintro ⟨⟨w, o⟩, ⟨listed, come⟩, rfl⟩
    exact ⟨o, listed, come⟩
  · rintro ⟨o, listed, come⟩
    exact ⟨(v, o), ⟨listed, come⟩, rfl⟩

theorem reachedDistinct : (s.reached done n).Nodup :=
  (SortedMap.keysNodup s.orchestratorOf).sublist ((List.filter_sublist ..).map _)

theorem Decided.mono (decided : s.Decided done n)
    (grown : ∀ v o, s.orchestratorOf.get? v = some o → done o ≤ further o) (earlier : m ≤ n) :
    s.Decided further m := by
  have more : (s.reached done n).Subperm (s.reached further m) := by
    refine List.subperm_of_subset reachedDistinct fun v here => ?_
    obtain ⟨o, leads, come⟩ := memReached.1 here
    exact memReached.2 ⟨o, leads, earlier.trans (come.trans (grown v o leads))⟩
  obtain ⟨part, reordered, sublist⟩ := more
  have stakes := (sublist.map fun v => (StakeView.stored.stakeOf s v).toNat).sum_le_sum
    fun _ _ => Nat.zero_le _
  rw [(reordered.map _).sum_eq] at stakes
  unfold Decided StakeView.stakeOfAll at decided ⊢
  omega

theorem Decided.someone (decided : s.Decided done n) (powered : s.totalPower ≠ 0) :
    ∃ v o, s.orchestratorOf.get? v = some o ∧ n ≤ done o := by
  have positive : 0 < s.totalPower.toNat :=
    Nat.pos_of_ne_zero fun zero => powered (UInt64.toNat_inj.1 zero)
  cases come : s.reached done n with
  | nil =>
    unfold Decided at decided
    rw [come] at decided
    simp only [StakeView.stakeOfAll, List.map_nil, List.sum_nil] at decided
    omega
  | cons v rest => exact ⟨v, memReached.1 (come ▸ List.mem_cons_self ..)⟩

end Store

def Store.OneToOne (s : Store) : Prop :=
  ∀ o v, s.validatorOf.get? o = some v ↔ s.orchestratorOf.get? v = some o

theorem PollKept.oneToOne (h : PollKept s t) (inv : s.OneToOne) : t.OneToOne := by
  intro o v
  rw [h.validatorOf, h.orchestratorOf]
  exact inv o v

theorem Enrolled.oneToOne (disciplined : Disciplined s) (inv : s.OneToOne) (h : Enrolled s t) :
    t.OneToOne := by
  obtain @⟨validator, orchestrator, signer, unsigned, unled, unused, rfl⟩ := h
  -- A validator with an orchestrator is bound, and a bound validator has a signer.
  have leaderless : ∀ q, s.orchestratorOf.get? validator ≠ some q := fun q leads => by
    obtain ⟨_, signs, _⟩ := (disciplined.led q validator ((inv q validator).2 leads)).signer
    rw [unsigned] at signs
    cases signs
  intro o v
  simp only [SortedMap.getInsert]
  by_cases sameO : orchestrator = o
  · subst sameO
    by_cases sameV : validator = v
    · simp [sameV]
    · simp only [if_true, if_neg sameV, Option.some.injEq]
      rw [← inv, unled]
      exact iff_of_false sameV nofun
  · by_cases sameV : validator = v
    · subst sameV
      simp only [if_true, if_neg sameO, Option.some.injEq]
      rw [inv]
      exact iff_of_false (leaderless o) sameO
    · simp only [if_neg sameO, if_neg sameV]
      exact inv o v

theorem Polling.oneToOne (disciplined : Disciplined s) (inv : s.OneToOne) (polling : Polling block s t) :
    t.OneToOne := by
  cases polling with
  | kept kept => exact kept.oneToOne inv
  | voted _ _ cast kept =>
    obtain ⟨_, rfl⟩ := Voting.castYields cast
    exact kept.oneToOne inv
  | enrolled enrolled => exact enrolled.oneToOne disciplined inv

structure Orderly (s : Store) : Prop where
  inOrder : ∃ os, InOrder s os
  attested : Attested s
  disciplined : Disciplined s
  oneToOne : s.OneToOne

namespace Orderly

variable {policy : ConflictPolicy} {validator : Account} {height : UInt64} {a : Attestation}
  {view : StakeView} {os : List Observation}

theorem cast (orderly : Orderly s) (sound : c.fault? = none)
    (bound : s.validatorOf.get? o = some validator)
    (h : Yields (Voting.cast policy validator c block.height) s a t) : Orderly t where
  inOrder := orderly.inOrder.imp fun _ inv => Voting.castInOrder inv h
  attested := by
    have voted : Voted block s t := .inr ⟨policy, validator, c, a, sound, h⟩
    exact (voted.attested orderly.attested).1
  disciplined := Voting.castDisciplined orderly.disciplined (orderly.disciplined.led o _ bound) h
  oneToOne := by
    obtain ⟨_, rfl⟩ := Voting.castYields h
    exact orderly.oneToOne

theorem pass (orderly : Orderly s) (h : Observing.Pass view block s os t) : Orderly t where
  inOrder := by
    obtain ⟨past, inv⟩ := orderly.inOrder
    exact ⟨past ++ os, (Observing.passInOrder inv h).1⟩
  attested := (Observing.passAttested orderly.attested h).1
  disciplined := (Observing.passPoll h).disciplined orderly.disciplined
  oneToOne := (Observing.passPoll h).oneToOne orderly.oneToOne

end Orderly

namespace Journal

variable {j : Journal}

theorem Run.oneToOne (run : Run j) : j.store.OneToOne := by
  refine Run.keeps ?setUp ?deed run
  case setUp =>
    intro block m r t yields
    have unbound : Store.empty.OneToOne := fun _ _ => ⟨nofun, nofun⟩
    exact (Contract.setUpPoll yields).oneToOne unbound
  case deed =>
    intro j block order r t past inv later yields
    exact (Chain.laterPolling later yields).oneToOne past.disciplined inv

theorem Run.orderly (run : Run j) : Orderly j.store :=
  ⟨⟨_, run.inOrder⟩, run.attested, run.disciplined, run.oneToOne⟩

end Journal

end TokenBridge
