import TokenBridge.Proofs.Escrow.Accounts
import TokenBridge.Proofs.Observation.ExactlyOnce
/-!
Deposits that are parked. A deposit of an unpaired token is parked when it is observed and stays so until the
admin registers the token. A pairing by a deployment leaves it where it is, and since a token is paired once
and for good, for ever.
-/
namespace TokenBridge

open TokenBridge.Action

variable {s t u : Store} {block : Block} {r : Response} {order : Order} {e : Effect}
  {os : List Observation} {token : Address} {claim : Claim}

structure Observation.Defers (o : Observation) (token : Address) (nonce : UInt64) (d : ParkedDeposit) :
    Prop where
  deferred : o.effect = .deferred token
  atNonce : o.claim.nonce = nonce
  numbered : d.nonce = nonce
  event : ∃ sender, o.claim.event = .deposit token d.amount sender d.receiver.name

def Store.Unregistered (s : Store) (token : Address) : Prop :=
  ∀ p, s.pairings.get? token = some p → p.ofThisChain = true

def PairingsKept (s t : Store) : Prop :=
  ∀ k p, s.pairings.get? k = some p → t.pairings.get? k = some p

def Parking (s : Store) (os : List Observation) : Prop :=
  ∀ k n d, s.parked.get? (k, n) = some d ↔ (∃ o ∈ os, o.Defers k n d) ∧ s.Unregistered k

structure ParkingKept (s t : Store) : Prop where
  parked : t.parked = s.parked
  pairings : t.pairings = s.pairings

theorem PoolMoved.parking (h : PoolMoved s t) : ParkingKept s t := by
  obtain ⟨_, _, _, _, rfl⟩ := h
  exact ⟨rfl, rfl⟩

theorem OfficeMoved.parking (h : OfficeMoved s t) : ParkingKept s t := by
  obtain ⟨_, _, _, _, _, _, _, _, _, _, _, rfl⟩ := h
  exact ⟨rfl, rfl⟩

theorem StakesMoved.parking (h : StakesMoved s t) : ParkingKept s t := by
  obtain ⟨_, _, rfl⟩ := h
  exact ⟨rfl, rfl⟩

theorem Voted.parking (h : Voted block s t) : ParkingKept s t := by
  rcases h with rfl | ⟨_, _, _, _, _, cast⟩
  · exact ⟨rfl, rfl⟩
  · obtain ⟨_, rfl⟩ := Voting.castYields cast
    exact ⟨rfl, rfl⟩

theorem ParkingKept.parking (h : ParkingKept s t) (inv : Parking s os) : Parking t os := by
  unfold Parking Store.Unregistered
  rw [h.parked, h.pairings]
  exact inv

theorem ParkingKept.paired (h : ParkingKept s t) : PairingsKept s t := fun k p found => by
  rw [h.pairings]
  exact found

inductive Parks (s : Store) (claim : Claim) : Effect → Store → Prop where
  | kept {e : Effect} {t : Store} (undeferred : ∀ k, e ≠ .deferred k) (kept : ParkingKept s t) :
      Parks s claim e t
  | paired {p : Pairing} {t : Store} (free : s.pairings.get? p.token = none)
      (ours : p.ofThisChain = true) (parked : t.parked = s.parked)
      (pairings : t.pairings = s.pairings.insert p.token p) : Parks s claim (.applied []) t
  | parked {token sender : Address} {amount : Amount} {receiver : Account} {t : Store}
      (event : claim.event = .deposit token amount sender receiver.name)
      (unpaired : s.pairings.get? token = none)
      (parked : t.parked = s.parked.insert (token, claim.nonce) ⟨claim.nonce, receiver, amount⟩)
      (pairings : t.pairings = s.pairings) : Parks s claim (.deferred token) t

namespace Registry

theorem payOutParks {p : Pairing} {receiver : Account} {amount : Amount}
    (h : Yields (payOut p receiver amount) s e t) : Parks s claim e t := by
  rcases payOutYields h with ⟨_, _, _, rfl, rfl⟩ | ⟨_, rfl, rfl⟩ | ⟨_, rfl, rfl⟩
  · exact .kept (fun _ => nofun) ⟨rfl, rfl⟩
  · exact .kept (fun _ => nofun) ⟨rfl, rfl⟩
  · refine .kept (fun _ => ?_) ⟨rfl, rfl⟩
    split <;> nofun

end Registry

theorem Batching.executedParks {nonce : UInt64} (h : Yields (executed token nonce) s e t) :
    Parks s claim e t := by
  rcases executedYields h with ⟨_, rfl, rfl⟩ | ⟨b, u, total, _, _, older, last⟩
  · exact .kept (fun _ => nofun) ⟨rfl, rfl⟩
  · have cleared : ParkingKept s (discard token nonce u) := by
      exact (clearedMoves nonce older).parking
    split at last
    · obtain ⟨rfl, rfl⟩ := last
      exact .kept (fun _ => nofun) cleared
    · rcases settleYields last with ⟨_, _, _, rfl, rfl⟩ | ⟨_, rfl, rfl⟩
      · exact .kept (fun _ => nofun) ⟨cleared.parked, cleared.pairings⟩
      · exact .kept (fun _ => nofun) cleared

theorem Observing.takeEffectParks (h : Yields (takeEffect block claim) s e t) : Parks s claim e t := by
  unfold takeEffect at h
  split at h
  · rename_i token amount sender receiver event
    rcases Registry.depositedYields h with
      ⟨_, rfl, rfl⟩ | ⟨a, valid, ⟨p, _, paid⟩ | ⟨unpaired, rfl, rfl⟩⟩
    · exact .kept (fun _ => nofun) ⟨rfl, rfl⟩
    · exact Registry.payOutParks paid
    · have named : a = ⟨receiver⟩ := Account.validateName valid
      subst named
      exact .parked event unpaired rfl rfl
  · exact Batching.executedParks h
  · obtain ⟨_, rfl, rfl⟩ := callExecutedYields h
    exact .kept (fun _ => nofun) ⟨rfl, rfl⟩
  · rcases Registry.deployedYields h with ⟨_, _, rfl, rfl⟩ | ⟨free, rfl, rfl⟩
    · exact .kept (fun _ => nofun) ⟨rfl, rfl⟩
    · exact .paired ((Registry.pairingFree free).1) rfl rfl rfl
  · obtain ⟨rfl, rfl⟩ := SignerSet.installedYields h
    exact .kept (fun _ => nofun) ⟨rfl, rfl⟩

theorem insertPaired {p : Pairing} (free : s.pairings.get? p.token = none)
    (pairings : t.pairings = s.pairings.insert p.token p) : PairingsKept s t := by
  intro k q found
  rw [pairings, SortedMap.getInsertOther]
  · exact found
  · intro same
    rw [same, found] at free
    cases free

namespace Parks

theorem keepsPairings (h : Parks s claim e t) : PairingsKept s t := by
  cases h with
  | kept _ kept => exact kept.paired
  | paired free _ _ pairings => exact insertPaired free pairings
  | parked _ _ _ pairings =>
    intro k p found
    rw [pairings]
    exact found

theorem defersAppend {o : Observation} {k : Address} {n : UInt64} {d : ParkedDeposit}
    (undeferring : ¬ o.Defers k n d) :
    (∃ x ∈ os ++ [o], x.Defers k n d) ↔ ∃ x ∈ os, x.Defers k n d := by
  constructor
  · rintro ⟨x, found, defers⟩
    rcases List.mem_append.1 found with old | new
    · exact ⟨x, old, defers⟩
    · cases List.mem_singleton.1 new
      exact absurd defers undeferring
  · rintro ⟨x, found, defers⟩
    exact ⟨x, List.mem_append_left _ found, defers⟩

theorem defersHere {o : Observation} {sender : Address} {amount : Amount} {receiver : Account}
    {d : ParkedDeposit} (effect : o.effect = .deferred token)
    (event : o.claim.event = .deposit token amount sender receiver.name)
    (fresh : ∀ x ∈ os, x.claim.nonce ≠ o.claim.nonce) :
    (∃ x ∈ os ++ [o], x.Defers token o.claim.nonce d) ↔ d = ⟨o.claim.nonce, receiver, amount⟩ := by
  constructor
  · rintro ⟨x, found, defers⟩
    rcases List.mem_append.1 found with old | new
    · exact absurd defers.atNonce (fresh x old)
    · cases List.mem_singleton.1 new
      obtain ⟨sender', same⟩ := defers.event
      rw [event] at same
      obtain ⟨_, amounts, _, receivers⟩ := Event.deposit.inj same
      rw [amounts, Account.ext receivers, ← defers.numbered]
  · rintro rfl
    exact ⟨o, List.mem_append_right _ (List.mem_singleton.2 rfl), effect, rfl, rfl, sender, event⟩

theorem parking {o : Observation} (inv : Parking s os) (h : Parks s o.claim e t) (ofEffect : o.effect = e)
    (fresh : ∀ x ∈ os, x.claim.nonce ≠ o.claim.nonce) : Parking t (os ++ [o]) := by
  intro k n d
  cases h with
  | kept undeferred kept =>
    rw [defersAppend fun defers => undeferred k (ofEffect.symm.trans defers.deferred)]
    exact kept.parking inv k n d
  | @paired p _ free ours parked pairings =>
    have undeferring : ¬ o.Defers k n d := fun defers =>
      nomatch ofEffect.symm.trans defers.deferred
    have same : t.Unregistered k ↔ s.Unregistered k := by
      unfold Store.Unregistered
      rw [pairings]
      by_cases here : p.token = k
      · subst here
        rw [SortedMap.getInsertSelf, free]
        simp [ours]
      · rw [SortedMap.getInsertOther _ _ here]
    rw [defersAppend undeferring, parked, inv, same]
  | @parked token sender amount receiver _ event unpaired parked pairings =>
    have unregistered : t.Unregistered k ↔ s.Unregistered k := by
      unfold Store.Unregistered
      rw [pairings]
    rw [parked, SortedMap.getInsert, unregistered]
    split
    · rename_i same
      cases same
      have free : s.Unregistered k := fun p paired => by
        rw [unpaired] at paired
        cases paired
      rw [defersHere ofEffect event fresh, and_iff_left free, Option.some.injEq, eq_comm]
    · rename_i apart
      have undeferring : ¬ o.Defers k n d := fun defers => by
        cases ofEffect.symm.trans defers.deferred
        exact apart (by rw [defers.atNonce])
      rw [inv, defersAppend undeferring]

end Parks

namespace Registry

theorem unparkAllGet (deposits : List ParkedDeposit) (s : Store) (k : Address) (n : UInt64) :
    (unparkAll token deposits s).parked.get? (k, n) =
      if token = k ∧ n ∈ deposits.map ParkedDeposit.nonce then none else s.parked.get? (k, n) := by
  induction deposits generalizing s with
  | nil => simp [unparkAll]
  | cons d rest ih =>
    show (unparkAll token rest (unpark token d s)).parked.get? (k, n) = _
    rw [ih]
    by_cases here : (token, d.nonce) = (k, n)
    · cases here
      simp [unpark]
    · have other : (unpark token d s).parked.get? (k, n) = s.parked.get? (k, n) :=
        SortedMap.getEraseOther _ here
      rw [other]
      by_cases ofToken : token = k
      · subst ofToken
        have apart : n ≠ d.nonce := fun same => here (by rw [same])
        simp [apart]
      · simp [ofToken]

theorem parkedForIff {d : ParkedDeposit} :
    d ∈ parkedFor s token ↔ ∃ n, s.parked.get? (token, n) = some d := by
  unfold parkedFor
  rw [SortedMap.memValues]
  constructor
  · rintro ⟨⟨k, n⟩, found⟩
    rw [SortedMap.getFilter] at found
    obtain ⟨found, ofToken⟩ := Option.filter_eq_some_iff.1 found
    have ofToken : k = token := by simpa using ofToken
    exact ⟨n, ofToken ▸ found⟩
  · rintro ⟨n, found⟩
    refine ⟨(token, n), ?_⟩
    rw [SortedMap.getFilter, found]
    simp

/-- Registration leaves no deposit of its token, since each is listed under its own nonce. -/
theorem unparkedGet (inv : Parking s os) (p : Pairing) (token k : Address) (n : UInt64) :
    (unparkAll token (parkedFor s token) (pair p s)).parked.get? (k, n) =
      if token = k then none else s.parked.get? (k, n) := by
  have kept : (pair p s).parked = s.parked := rfl
  rw [unparkAllGet, kept]
  by_cases ofToken : token = k
  · subst ofToken
    rw [if_pos rfl]
    cases found : s.parked.get? (token, n) with
    | none => simp
    | some d =>
      obtain ⟨⟨_, _, defers⟩, _⟩ := (inv _ _ _).1 found
      refine if_pos ⟨rfl, List.mem_map.2 ⟨d, parkedForIff.2 ⟨n, found⟩, defers.numbered⟩⟩
  · simp [ofToken]

theorem registeredParking {a : Account} (inv : Parking s os) (free : s.pairings.get? token = none)
    (after : t = unparkAll token (parkedFor s token) (pair ⟨token, .cw20 a, false⟩ s)) :
    Parking t os ∧ PairingsKept s t := by
  have parked := unparkedGet inv ⟨token, .cw20 a, false⟩ token
  obtain ⟨_, unparked⟩ := unparkAllMoves token (parkedFor s token) (pair ⟨token, .cw20 a, false⟩ s)
  have pairings : t.pairings = s.pairings.insert token ⟨token, .cw20 a, false⟩ := by
    rw [after, unparked]
    rfl
  refine ⟨fun k n d => ?_, insertPaired (p := ⟨token, .cw20 a, false⟩) free pairings⟩
  unfold Store.Unregistered
  rw [pairings, after, parked]
  by_cases ofToken : token = k
  · subst ofToken
    simp
  · rw [if_neg ofToken, SortedMap.getInsertOther _ _ ofToken]
    exact inv k n d

end Registry

theorem Observing.passParking {later : List Observation} (inv : InOrder s os) (parking : Parking s os)
    (pass : Pass .stored block s later t) : Parking t (os ++ later) ∧ PairingsKept s t := by
  refine passKeeps (P := fun u seen => Parking u seen ∧ PairingsKept s u) ?_ inv
    ⟨parking, fun _ _ found => found⟩ pass
  rintro u seen nonce fingerprint a e v inv ⟨parking, kept⟩ next here effect
  have marked : ParkingKept u (mark nonce fingerprint a u) := ⟨rfl, rfl⟩
  have parks := takeEffectParks effect
  have atNonce : a.claim.nonce = nonce := inv.atNonce _ _ _ here
  refine ⟨parks.parking (marked.parking parking) rfl ?_, fun k p found =>
    parks.keepsPairings k p (marked.paired k p (kept k p found))⟩
  rw [atNonce]
  exact inv.fresh next

theorem Movement.parking (inv : InOrder s os) (parking : Parking s os)
    (moved : Movement block s order r t) : Parking t (os ++ r.observations) ∧ PairingsKept s t := by
  have quiet (unobserving : r.observations = []) (kept : ParkingKept s t) :
      Parking t (os ++ r.observations) ∧ PairingsKept s t := by
    rw [unobserving, List.append_nil]
    exact ⟨kept.parking parking, kept.paired⟩
  cases moved with
  | administered _ _ moved _ unobserving => exact quiet unobserving moved.parking
  | reported _ after _ unobserving =>
    have kept := (Directory.reportMoves order.reports s).parking
    rw [← after] at kept
    exact quiet unobserving kept
  | entered _ _ _ _ _ answer after =>
    refine quiet (by rw [answer]; rfl) ?_
    rw [after]
    exact ⟨rfl, rfl⟩
  | cancelled _ _ _ _ _ unobserving after =>
    refine quiet unobserving ?_
    rw [after]
    exact ⟨rfl, rfl⟩
  | assembled _ _ made _ unobserving =>
    obtain ⟨_, moved⟩ := Batching.assembleMoves made
    exact quiet unobserving ⟨moved.parking.parked, moved.parking.pairings⟩
  | registered _ _ free after _ unobserving =>
    rw [unobserving, List.append_nil]
    exact Registry.registeredParking parking ((Registry.pairingFree free).1) after
  | observed _ _ voted pass returned moved answers =>
    have kept := voted.parking
    have back := (Batching.dissolvesMove returned).parking
    have office := moved.parking
    obtain ⟨parked, paired⟩ := Observing.passParking (voted.inOrder inv).1 (kept.parking parking) pass
    rw [answers.observations]
    exact ⟨office.parking (back.parking parked), fun k p found =>
      office.paired k p (back.paired k p (paired k p (kept.paired k p found)))⟩

theorem Contract.setUpParking {m : Setup} (h : Yields (Contract.setUp m) .empty r t) :
    Parking t r.observations := by
  obtain ⟨_, _, rfl, _, unobserving⟩ := Contract.setUpYields h
  obtain ⟨_, _, same⟩ := Directory.reportMoves m.stakes _
  rw [unobserving, same]
  intro k n d
  refine ⟨fun found => (nomatch found), ?_⟩
  rintro ⟨⟨_, none, _⟩, _⟩
  cases none

namespace Journal

variable {i j : Journal}

theorem Run.parking (run : Run j) : Parking j.store j.observations := by
  refine Run.keeps ?setUp ?deed run
  case setUp =>
    intro block m r t yields
    have parking := Contract.setUpParking yields
    rw [← List.append_nil r.observations] at parking
    exact parking
  case deed =>
    intro j block order r t past parking later yields
    rw [observationsConcat]
    exact ((Chain.laterMovement later yields).parking past.inOrder parking).1

theorem Follows.paired (h : Follows j i) (run : Run j) : PairingsKept j.store i.store := by
  refine Follows.keeps h run (fun _ _ found => found) ?_
  intro i block order r t past kept later yields k p found
  exact ((Chain.laterMovement later yields).parking past.inOrder past.parking).2 k p (kept k p found)

/-- Registration mints all that is parked for its token; under a token that is paired otherwise deposits stay parked
for good. -/
theorem Run.parkedUntilRegistered (run : Run j) :
    (∀ k n d, j.store.parked.get? (k, n) = some d ↔
      (∃ o ∈ j.observations, o.Defers k n d) ∧ j.store.Unregistered k) ∧
    (∀ k n d p, j.store.parked.get? (k, n) = some d → j.store.pairings.get? k = some p →
      ∀ i, Follows j i → i.store.parked.get? (k, n) = some d ∧
        ∀ caller written cw20 r t, Address.parse written = .ok k →
          ¬ Yields (Registry.registerToken caller written cw20) i.store r t) ∧
    ∀ k caller written cw20 r t, Address.parse written = .ok k →
      Yields (Registry.registerToken caller written cw20) j.store r t →
      (∀ n, t.parked.get? (k, n) = none) ∧ ∃ a, Account.validate cw20 = .ok a ∧
        r.messages = (Registry.parkedFor j.store k).map (Registry.mint a) := by
  have parking := run.parking
  refine ⟨parking, ?_, ?_⟩
  · intro k n d p found paired i follows
    obtain ⟨⟨o, observed, defers⟩, unregistered⟩ := (parking k n d).1 found
    have still := follows.paired run k p paired
    have later := (follows.run run).parking
    refine ⟨(later k n d).2 ⟨⟨o, ?_, defers⟩, fun q found => ?_⟩, ?_⟩
    · obtain ⟨more, same⟩ := follows.deeds run
      unfold observations
      rw [same, List.flatMap_append]
      exact List.mem_append_left _ observed
    · rw [still] at found
      cases found
      exact unregistered p paired
    · intro caller written cw20 r t parsed yields
      obtain ⟨_, k', _, _, _, parsed', _, free, _⟩ := Registry.registerTokenYields yields
      rw [parsed] at parsed'
      cases parsed'
      rw [(Registry.pairingFree free).1] at still
      cases still
  · intro k caller written cw20 r t parsed yields
    obtain ⟨_, k', a, _, _, parsed', valid, _, rfl, rfl⟩ := Registry.registerTokenYields yields
    rw [parsed] at parsed'
    cases parsed'
    refine ⟨fun n => ?_, a, valid, rfl⟩
    rw [Registry.unparkedGet parking, if_pos rfl]

/-- A deposit of a token is parked, then the token is deployed for a denomination of this chain. -/
def stranded : Journal :=
  opened.deliverAll
    [(⟨102, 3⟩, .execute ⟨⟨"orch"⟩, []⟩
        (.submitClaim ⟨1, 50, .deposit .zero (.small 100) .zero "alice"⟩)),
      (⟨103, 4⟩, .execute ⟨⟨"orch"⟩, []⟩
        (.submitClaim ⟨2, 60, .tokenDeployed "atom" .zero "Atom" "ATM" 6⟩))]

theorem strandedRun : Run stranded := openedRun.deliverAll (by decide)

theorem strandedStores :
    stranded.store.parked.get? (.zero, 1) = some ⟨1, ⟨"alice"⟩, ⟨100, by decide⟩⟩ ∧
      stranded.store.pairings.get? .zero = some ⟨.zero, .native "atom", true⟩ := by
  decide +kernel

def registration : Order :=
  .execute ⟨⟨"admin"⟩, []⟩ (.registerToken "0x0000000000000000000000000000000000000000" "token")

theorem strandedForGood :
    (stranded.deliver ⟨104, 5⟩ registration).store.parked.get? (.zero, 1) =
      some ⟨1, ⟨"alice"⟩, ⟨100, by decide⟩⟩ := by
  have later : Follows stranded (stranded.deliver ⟨104, 5⟩ registration) := .later (.here _) _ _ rfl
  obtain ⟨parked, paired⟩ := strandedStores
  exact ((Run.parkedUntilRegistered strandedRun).2.1 _ _ _ _ parked paired _ later).1

theorem strandedThoughPaired :
    Run stranded ∧ ∃ d p, stranded.store.parked.get? (.zero, 1) = some d ∧
      stranded.store.pairings.get? .zero = some p :=
  ⟨strandedRun, _, _, strandedStores⟩

end Journal

end TokenBridge
