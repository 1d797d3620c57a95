import TokenBridge.Proofs.Observation.Trace
import Mathlib.Logic.ExistsUnique
/-!
Claims are observed exactly once and in order. `InOrder s os` relates a store to all that was observed on
the way to it: the cursor counts the observations, and every nonce up to it has one observed content.
-/
namespace TokenBridge

open TokenBridge.Action

variable {s t u : Store} {block : Block} {os later : List Observation}

def Store.observed? (s : Store) (nonce : UInt64) (fingerprint : Word) : Option Claim :=
  (s.attestations.get? (nonce, fingerprint)).bind fun a => if a.observed then some a.claim else none

theorem Store.observedIff {n : UInt64} {p : Word} {c : Claim} :
    s.observed? n p = some c ↔
      ∃ a, s.attestations.get? (n, p) = some a ∧ a.observed = true ∧ a.claim = c := by
  unfold observed?
  rw [Option.bind_eq_some_iff]
  simp

structure Store.AtGreatestHeight (s : Store) : Prop where
  bounds : ∀ n p c, s.observed? n p = some c → c.ethHeight ≤ s.ethHeight
  attained : (∃ n p c, s.observed? n p = some c ∧ c.ethHeight = s.ethHeight) ∨
    (∀ n p, s.observed? n p = none) ∧ s.ethHeight = 0

structure InOrder (s : Store) (os : List Observation) : Prop where
  atNonce : ∀ n p a, s.attestations.get? (n, p) = some a → a.claim.nonce = n
  upToCursor : ∀ n p c, s.observed? n p = some c → 1 ≤ n.toNat ∧ n.toNat ≤ s.observedNonce.toNat
  decided : ∀ n : UInt64, 1 ≤ n.toNat → n.toNat ≤ s.observedNonce.toNat →
    ∃ p c, s.observed? n p = some c
  alone : ∀ n p q c d, s.observed? n p = some c → s.observed? n q = some d → p = q
  height : s.AtGreatestHeight
  counted : os.map (fun o => o.claim.nonce.toNat) = List.range' 1 s.observedNonce.toNat
  sources : ∀ o ∈ os, s.observed? o.claim.nonce o.fingerprint = some o.claim

theorem InOrder.observedFrom {n : UInt64} {p : Word} {c : Claim} (inv : InOrder s os)
    (found : s.observed? n p = some c) : ∃ o ∈ os, o.claim = c := by
  obtain ⟨first, last⟩ := inv.upToCursor n p c found
  have counted : n.toNat ∈ os.map fun o => o.claim.nonce.toNat := by
    rw [inv.counted, List.mem_range'_1]
    omega
  obtain ⟨o, observed, atNonce⟩ := List.mem_map.1 counted
  obtain rfl : o.claim.nonce = n := UInt64.toNat_inj.1 atNonce
  have source := inv.sources o observed
  obtain rfl := inv.alone _ _ _ _ _ found source
  exact ⟨o, observed, Option.some.inj (source.symm.trans found)⟩

structure ObservedKept (s t : Store) : Prop where
  observed : t.observed? = s.observed?
  observedNonce : t.observedNonce = s.observedNonce
  ethHeight : t.ethHeight = s.ethHeight

structure Advanced (s t : Store) : Prop where
  cursor : s.observedNonce ≤ t.observedNonce
  observed : ∀ n p c, s.observed? n p = some c → t.observed? n p = some c

theorem Advanced.here : Advanced s s := ⟨UInt64.le_refl _, fun _ _ _ h => h⟩

theorem Advanced.trans (h : Advanced s t) (h' : Advanced t u) : Advanced s u :=
  ⟨UInt64.le_trans h.cursor h'.cursor, fun n p c found => h'.observed n p c (h.observed n p c found)⟩

theorem VotesKept.kept (h : VotesKept s t) : ObservedKept s t := by
  refine ⟨?_, h.observedNonce, h.ethHeight⟩
  unfold Store.observed?
  rw [h.attestations]

theorem ObservedKept.advanced (h : ObservedKept s t) : Advanced s t := by
  refine ⟨?_, fun n p c found => ?_⟩
  · rw [h.observedNonce]
    exact UInt64.le_refl _
  · rw [h.observed]
    exact found

theorem ObservedKept.inOrder (h : ObservedKept s t) (inv : InOrder s os)
    (atNonce : ∀ n p a, t.attestations.get? (n, p) = some a → a.claim.nonce = n) : InOrder t os where
  atNonce := atNonce
  upToCursor := by rw [h.observed, h.observedNonce]; exact inv.upToCursor
  decided := by rw [h.observed, h.observedNonce]; exact inv.decided
  alone := by rw [h.observed]; exact inv.alone
  height := by
    obtain ⟨bounds, attained⟩ := inv.height
    rw [← h.observed, ← h.ethHeight] at bounds attained
    exact ⟨bounds, attained⟩
  counted := by rw [h.observedNonce]; exact inv.counted
  sources := by rw [h.observed]; exact inv.sources

theorem InOrder.empty : InOrder .empty [] where
  atNonce _ _ _ h := by cases h
  upToCursor _ _ _ h := by cases h
  decided n first last := by
    have none : n.toNat ≤ 0 := last
    omega
  alone _ _ _ _ _ h := by cases h
  height := ⟨fun _ _ _ h => (nomatch h), .inr ⟨fun _ _ => rfl, rfl⟩⟩
  counted := rfl
  sources _ h := by cases h

theorem InOrder.fresh {n : UInt64} (inv : InOrder s os) (next : Counter.next? s.observedNonce = some n) :
    ∀ o ∈ os, o.claim.nonce ≠ n := by
  intro o found same
  have succ := Counter.nextVal next
  have old := (inv.upToCursor _ _ _ (inv.sources o found)).2
  rw [same] at old
  omega

namespace Voting

variable {policy : ConflictPolicy} {v : Account} {claim : Claim} {height : UInt64} {a : Attestation}

theorem castKeeps (inv : InOrder s os) (h : Yields (cast policy v claim height) s a t) :
    ObservedKept s t ∧ a.claim.nonce = claim.nonce := by
  obtain ⟨made, rfl⟩ := castYields h
  obtain ⟨_, ⟨b, found, _, _, rfl⟩ | ⟨missing, _, rfl⟩⟩ := attestationOk made
  · refine ⟨⟨?_, rfl, rfl⟩, inv.atNonce _ _ b found⟩
    funext n p
    simp only [Store.observed?, SortedMap.getInsert]
    split
    · rename_i here
      rw [← here, found]
      rfl
    · rfl
  · refine ⟨⟨?_, rfl, rfl⟩, rfl⟩
    funext n p
    simp only [Store.observed?, SortedMap.getInsert]
    split
    · rename_i here
      rw [← here, missing]
      rfl
    · rfl

theorem castInOrder (inv : InOrder s os) (h : Yields (cast policy v claim height) s a t) :
    InOrder t os := by
  obtain ⟨kept, here⟩ := castKeeps inv h
  obtain ⟨_, rfl⟩ := castYields h
  refine kept.inOrder inv fun n p b found => ?_
  rw [SortedMap.getInsert] at found
  split at found
  · rename_i same
    cases found
    cases same
    exact here
  · exact inv.atNonce n p b found

end Voting

namespace Observing

variable {view : StakeView} {nonce : UInt64} {fingerprint : Word} {a : Attestation}

theorem markObserved (n : UInt64) (p : Word) :
    (mark nonce fingerprint a s).observed? n p =
      if (nonce, fingerprint) = (n, p) then some a.claim else s.observed? n p := by
  simp only [mark, Store.observed?, SortedMap.getInsert]
  split
  · rfl
  · rfl

theorem markAdvanced (inv : InOrder s os) (next : Counter.next? s.observedNonce = some nonce) :
    Advanced s (mark nonce fingerprint a s) := by
  have succ := Counter.nextVal next
  refine ⟨UInt64.le_iff_toNat_le.2 ?_, fun n p c found => ?_⟩
  · show s.observedNonce.toNat ≤ nonce.toNat
    omega
  · rw [markObserved, if_neg, found]
    intro here
    cases here
    have old := (inv.upToCursor _ _ _ found).2
    omega

theorem markInOrder (inv : InOrder s os) (next : Counter.next? s.observedNonce = some nonce)
    (here : s.attestations.get? (nonce, fingerprint) = some a) (o : Observation)
    (ofClaim : o.claim = a.claim) (ofContent : o.fingerprint = fingerprint) :
    InOrder (mark nonce fingerprint a s) (os ++ [o]) := by
  have succ := Counter.nextVal next
  have atNonce : a.claim.nonce = nonce := inv.atNonce _ _ _ here
  -- Observed contents stand at nonces up to the cursor, so the next nonce has none yet, whatever its content.
  have fresh : ∀ p, s.observed? nonce p = none := fun p => by
    cases found : s.observed? nonce p with
    | none => rfl
    | some c =>
      have old := (inv.upToCursor _ _ _ found).2
      omega
  have advanced : Advanced s (mark nonce fingerprint a s) := markAdvanced inv next
  constructor
  case atNonce =>
    intro n p b found
    simp only [mark, SortedMap.getInsert] at found
    split at found
    · rename_i same
      cases found
      cases same
      exact atNonce
    · exact inv.atNonce n p b found
  case upToCursor =>
    intro n p c found
    show 1 ≤ n.toNat ∧ n.toNat ≤ nonce.toNat
    rw [markObserved] at found
    split at found
    · rename_i same
      cases same
      omega
    · have old := inv.upToCursor n p c found
      omega
  case decided =>
    intro n first last
    have last : n.toNat ≤ nonce.toNat := last
    by_cases old : n.toNat ≤ s.observedNonce.toNat
    · obtain ⟨p, c, found⟩ := inv.decided n first old
      exact ⟨p, c, advanced.observed n p c found⟩
    · have same : nonce = n := UInt64.toNat_inj.1 (by omega)
      exact ⟨fingerprint, a.claim, by rw [markObserved, if_pos (by rw [same])]⟩
  case alone =>
    intro n p q c d atP atQ
    rw [markObserved] at atP atQ
    split at atP
    · rename_i same
      cases same
      split at atQ
      · rename_i same'
        cases same'
        rfl
      · rw [fresh] at atQ
        cases atQ
    · split at atQ
      · rename_i same'
        cases same'
        rw [fresh] at atP
        cases atP
      · exact inv.alone n p q c d atP atQ
  case height =>
    have highest : (mark nonce fingerprint a s).ethHeight.toNat =
        max s.ethHeight.toNat a.claim.ethHeight.toNat := Counter.largerVal ..
    refine ⟨fun n p c found => UInt64.le_iff_toNat_le.2 ?_, .inl ?_⟩
    · rw [markObserved] at found
      split at found
      · cases found
        omega
      · have old := UInt64.le_iff_toNat_le.1 (inv.height.bounds n p c found)
        omega
    · by_cases top : s.ethHeight.toNat ≤ a.claim.ethHeight.toNat
      · refine ⟨nonce, fingerprint, a.claim, by rw [markObserved, if_pos rfl], ?_⟩
        exact UInt64.toNat_inj.1 (by omega)
      · rcases inv.height.attained with ⟨n, p, c, found, same⟩ | ⟨_, zero⟩
        · refine ⟨n, p, c, advanced.observed n p c found, UInt64.toNat_inj.1 ?_⟩
          rw [same]
          omega
        · rw [zero] at top
          exact absurd (Nat.zero_le _) top
  case counted =>
    show _ = List.range' 1 nonce.toNat
    rw [List.map_append, inv.counted, succ, List.range'_concat]
    simp only [List.map_cons, List.map_nil, ofClaim, atNonce, succ]
    congr 2
    omega
  case sources =>
    intro x found
    rcases List.mem_append.1 found with old | new
    · exact advanced.observed _ _ _ (inv.sources x old)
    · cases List.mem_singleton.1 new
      rw [ofClaim, ofContent, atNonce, markObserved, if_pos rfl]

theorem observedInOrder {e : Effect} (inv : InOrder s os)
    (next : Counter.next? s.observedNonce = some nonce)
    (here : s.attestations.get? (nonce, fingerprint) = some a)
    (effect : Yields (takeEffect block a.claim) (mark nonce fingerprint a s) e u) :
    InOrder u (os ++ [⟨nonce, fingerprint, a.claim, a.votes.length,
      (mark nonce fingerprint a s).ethHeight, e⟩]) ∧ Advanced s u := by
  -- The flag and the cursor are written before the effect, and no effect writes votes.
  have kept := (takeEffectMoves effect).votes
  have marked := markInOrder inv next here
    ⟨nonce, fingerprint, a.claim, a.votes.length, (mark nonce fingerprint a s).ethHeight, e⟩ rfl rfl
  exact ⟨kept.kept.inOrder marked (by rw [kept.attestations]; exact marked.atNonce),
    (markAdvanced inv next).trans kept.kept.advanced⟩

theorem passInOrder (inv : InOrder s os) (pass : Pass view block s later t) :
    InOrder t (os ++ later) ∧ Advanced s t := by
  induction pass generalizing os with
  | rest s => exact ⟨by rw [List.append_nil]; exact inv, .here⟩
  | observe _ next won effect _ ih =>
    obtain ⟨here, _, _⟩ := winnerFound won
    obtain ⟨applied, advanced⟩ := observedInOrder inv next here effect
    obtain ⟨done, further⟩ := ih applied
    exact ⟨by rw [List.append_cons]; exact done, advanced.trans further⟩

theorem passKeeps {P : Store → List Observation → Prop}
    (step : ∀ s os nonce fingerprint a e u, InOrder s os → P s os →
      Counter.next? s.observedNonce = some nonce →
      s.attestations.get? (nonce, fingerprint) = some a →
      Yields (takeEffect block a.claim) (mark nonce fingerprint a s) e u →
      P u (os ++ [⟨nonce, fingerprint, a.claim, a.votes.length,
        (mark nonce fingerprint a s).ethHeight, e⟩]))
    (inv : InOrder s os) (start : P s os) (pass : Pass view block s later t) : P t (os ++ later) := by
  induction pass generalizing os with
  | rest s =>
    rw [List.append_nil]
    exact start
  | observe _ next won effect _ ih =>
    obtain ⟨here, _, _⟩ := winnerFound won
    rw [List.append_cons]
    exact ih (observedInOrder inv next here effect).1
      (step _ _ _ _ _ _ _ inv start next here effect)

end Observing

theorem Voted.inOrder (inv : InOrder s os) (h : Voted block s t) : InOrder t os ∧ Advanced s t := by
  rcases h with rfl | ⟨_, _, _, _, _, cast⟩
  · exact ⟨inv, .here⟩
  · exact ⟨Voting.castInOrder inv cast, (Voting.castKeeps inv cast).1.advanced⟩

theorem Observes.inOrder (inv : InOrder s os) (h : Observes block s later t) :
    InOrder t (os ++ later) ∧ Advanced s t := by
  obtain ⟨u, v, voted, pass, kept⟩ := h
  have afterVote := voted.inOrder inv
  obtain ⟨passed, further⟩ := Observing.passInOrder afterVote.1 pass
  have last := kept.kept.inOrder passed (by rw [kept.attestations]; exact passed.atNonce)
  exact ⟨last, (afterVote.2.trans further).trans kept.kept.advanced⟩

end TokenBridge
