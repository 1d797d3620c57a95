import TokenBridge.Proofs.Deposits.Parked
/-!
Credits of deposits. Every observed deposit of a token of Ethereum to a valid receiver is minted once, on the cw20
contract of its token, or is parked until the token has one; and nothing else is minted there.
-/
namespace TokenBridge

open TokenBridge.Action

variable {s t : Store} {block : Block} {r : Response} {order : Order} {e : Effect} {claim : Claim}
  {os : List Observation} {cs : List Claim} {ms : List LedgerMessage} {token : Address}
  {contract : Account}

abbrev Credit := Account × Amount

def LedgerMessage.mints? (contract : Account) : LedgerMessage → Option Credit
  | .call c (.mint receiver amount) => if c = contract then some (receiver, amount) else none
  | _ => none

def mintsOn (contract : Account) (ms : List LedgerMessage) : List Credit :=
  ms.filterMap fun m => m.mints? contract

def Claim.credits? (token : Address) (c : Claim) : Option Credit :=
  match c.event with
  | .deposit k amount _ receiver =>
    if k = token then (Account.validate receiver).toOption.map fun a => (a, amount) else none
  | _ => none

def creditsOf (token : Address) (cs : List Claim) : List Credit :=
  cs.filterMap fun c => c.credits? token

def ParkedDeposit.credit (d : ParkedDeposit) : Credit := (d.receiver, d.amount)

def Store.parkedCredits (s : Store) (token : Address) : List Credit :=
  (Registry.parkedFor s token).map ParkedDeposit.credit

@[simp] theorem mintsOnAppend (ms ns : List LedgerMessage) :
    mintsOn contract (ms ++ ns) = mintsOn contract ms ++ mintsOn contract ns :=
  List.filterMap_append

@[simp] theorem creditsOfAppend (cs ds : List Claim) :
    creditsOf token (cs ++ ds) = creditsOf token cs ++ creditsOf token ds :=
  List.filterMap_append

theorem creditsOfOne (c : Claim) : creditsOf token [c] = (c.credits? token).toList := by
  unfold creditsOf
  rw [List.filterMap_cons]
  cases c.credits? token <;> rfl

theorem mintsOnPayout (asset : Asset) (receiver : Account) (amount : Amount) :
    mintsOn contract [asset.payout receiver amount] = [] := by
  cases asset <;> rfl

theorem mintsOnMints (ds : List ParkedDeposit) (a : Account) :
    mintsOn contract (ds.map (Registry.mint a)) =
      if a = contract then ds.map ParkedDeposit.credit else [] := by
  unfold mintsOn
  rw [List.filterMap_map]
  split
  · rename_i same
    subst same
    rw [← List.filterMap_eq_map]
    refine List.filterMap_congr fun d _ => ?_
    simp [Registry.mint, LedgerMessage.mints?, ParkedDeposit.credit]
  · rename_i apart
    refine List.filterMap_eq_nil_iff.2 fun d _ => ?_
    simp [Registry.mint, LedgerMessage.mints?, apart]

structure Listed (s : Store) : Prop where
  named : ∀ k p, s.pairings.get? k = some p → s.tokenOf.get? p.asset.key = some k
  ours : ∀ k p, s.pairings.get? k = some p → p.ofThisChain = true → ∀ c, p.asset ≠ .cw20 c
  foreign : ∀ k p, s.pairings.get? k = some p → p.ofThisChain = false → ∃ c, p.asset = .cw20 c

structure DepositsKept (s t : Store) : Prop where
  pairings : t.pairings = s.pairings
  tokenOf : t.tokenOf = s.tokenOf
  parked : t.parked = s.parked

theorem DepositsKept.here : DepositsKept s s := ⟨rfl, rfl, rfl⟩

theorem PoolMoved.deposits (h : PoolMoved s t) : DepositsKept s t :=
  ⟨h.parking.pairings, h.books.tokenOf, h.parking.parked⟩

theorem OfficeMoved.deposits (h : OfficeMoved s t) : DepositsKept s t :=
  ⟨h.parking.pairings, h.escrow.tokenOf, h.parking.parked⟩

theorem StakesMoved.deposits (h : StakesMoved s t) : DepositsKept s t :=
  ⟨h.parking.pairings, h.escrow.tokenOf, h.parking.parked⟩

theorem Voted.deposits (h : Voted block s t) : DepositsKept s t :=
  ⟨h.parking.pairings, h.escrow.tokenOf, h.parking.parked⟩

theorem DepositsKept.listed (h : DepositsKept s t) (listed : Listed s) : Listed t where
  named := by rw [h.pairings, h.tokenOf]; exact listed.named
  ours := by rw [h.pairings]; exact listed.ours
  foreign := by rw [h.pairings]; exact listed.foreign

theorem Listed.sameToken (listed : Listed s) {k : Address} {p q : Pairing}
    (first : s.pairings.get? token = some p) (second : s.pairings.get? k = some q)
    (same : p.asset = q.asset) : token = k := by
  have found := listed.named _ _ first
  rw [same, listed.named _ _ second] at found
  exact (Option.some.inj found).symm

namespace Registry

variable {p q : Pairing} {k : Address}

theorem pairedBy (found : (pair p s).pairings.get? k = some q) :
    q = p ∧ k = p.token ∨ s.pairings.get? k = some q := by
  simp only [pair, SortedMap.getInsert] at found
  split at found
  · rename_i same
    cases found
    exact .inl ⟨rfl, same.symm⟩
  · exact .inr found

theorem pairedStill (free : pairingFault? s p.token p.asset = none)
    (found : s.pairings.get? k = some q) : (pair p s).pairings.get? k = some q :=
  insertPaired (pairingFree free).1 rfl k q found

theorem pairListed (listed : Listed s) (free : pairingFault? s p.token p.asset = none)
    (ours : p.ofThisChain = true → ∀ c, p.asset ≠ .cw20 c)
    (foreign : p.ofThisChain = false → ∃ c, p.asset = .cw20 c) : Listed (pair p s) where
  named k q found := by
    rcases pairedBy found with ⟨rfl, rfl⟩ | old
    · exact SortedMap.getInsertSelf ..
    · exact pairTokens free _ _ (listed.named k q old)
  ours k q found := by
    rcases pairedBy found with ⟨rfl, _⟩ | old
    · exact ours
    · exact listed.ours k q old
  foreign k q found := by
    rcases pairedBy found with ⟨rfl, _⟩ | old
    · exact foreign
    · exact listed.foreign k q old

theorem parkedForSame (same : ∀ n, t.parked.get? (k, n) = s.parked.get? (k, n)) :
    parkedFor t k = parkedFor s k := by
  unfold parkedFor
  congr 1
  refine SortedMap.extGet fun key => ?_
  rw [SortedMap.getFilter, SortedMap.getFilter]
  by_cases ofToken : key.1 = k
  · subst ofToken
    rw [same key.2]
  · simp [ofToken]

theorem parkedCreditsSame (same : ∀ n, t.parked.get? (k, n) = s.parked.get? (k, n)) :
    t.parkedCredits k = s.parkedCredits k := by
  unfold Store.parkedCredits
  rw [parkedForSame same]

theorem parkedForInsert {n : UInt64} {d : ParkedDeposit} (fresh : s.parked.get? (token, n) = none)
    (parked : t.parked = s.parked.insert (token, n) d) :
    (parkedFor t token).Perm (d :: parkedFor s token) := by
  have filtered : (t.parked.filter fun key _ => key.1 = token) =
      (s.parked.filter fun key _ => key.1 = token).insert (token, n) d := by
    refine SortedMap.extGet fun key => ?_
    rw [SortedMap.getFilter, parked, SortedMap.getInsert, SortedMap.getInsert, SortedMap.getFilter]
    split
    · rename_i same
      subst same
      simp
    · rfl
  unfold parkedFor
  rw [filtered]
  refine SortedMap.valuesInsert ?_
  rw [SortedMap.getFilter, fresh]
  rfl

end Registry

structure Credited (s : Store) (ms : List LedgerMessage) (cs : List Claim) : Prop where
  minted : ∀ k p contract, s.pairings.get? k = some p → p.asset = .cw20 contract →
    (mintsOn contract ms).Perm (creditsOf k cs)
  unminted : ∀ contract, (∀ k p, s.pairings.get? k = some p → p.asset ≠ .cw20 contract) →
    mintsOn contract ms = []
  parked : ∀ k, s.pairings.get? k = none → (s.parkedCredits k).Perm (creditsOf k cs)

theorem Credited.empty : Credited .empty [] [] where
  minted _ _ _ found := by cases found
  unminted _ _ := rfl
  parked _ _ := .refl _

theorem Credited.keep {ns : List LedgerMessage} {ds : List Claim} (inv : Credited s ms cs)
    (kept : DepositsKept s t) (minted : ∀ contract, mintsOn contract ns = [])
    (uncredited : ∀ k, creditsOf k ds = []) : Credited t (ms ++ ns) (cs ++ ds) where
  minted k p contract := by
    rw [kept.pairings, mintsOnAppend, creditsOfAppend, minted, uncredited, List.append_nil,
      List.append_nil]
    exact inv.minted k p contract
  unminted contract := by
    rw [kept.pairings, mintsOnAppend, minted, List.append_nil]
    exact inv.unminted contract
  parked k := by
    rw [kept.pairings, creditsOfAppend, uncredited, List.append_nil,
      Registry.parkedCreditsSame (s := s) fun n => by rw [kept.parked]]
    exact inv.parked k

inductive Credits (s : Store) (claim : Claim) : Effect → Store → Prop where
  | uncredited {e : Effect} {t : Store} (uncredited : ∀ k, claim.credits? k = none)
      (unminting : ∀ contract, mintsOn contract e.messages = []) (kept : DepositsKept s t) :
      Credits s claim e t
  | paired {p : Pairing} (uncredited : ∀ k, claim.credits? k = none)
      (free : Registry.pairingFault? s p.token p.asset = none) (ours : p.ofThisChain = true)
      (native : ∀ c, p.asset ≠ .cw20 c) : Credits s claim (.applied []) (Registry.pair p s)
  | paid {token : Address} {c : Credit} {p : Pairing} {e : Effect} {t : Store}
      (credited : ∀ k, claim.credits? k = if token = k then some c else none)
      (paired : s.pairings.get? token = some p)
      (minted : ∀ contract, mintsOn contract e.messages =
        if p.asset = .cw20 contract then [c] else [])
      (kept : DepositsKept s t) : Credits s claim e t
  | parked {token : Address} {d : ParkedDeposit}
      (credited : ∀ k, claim.credits? k = if token = k then some d.credit else none)
      (unpaired : s.pairings.get? token = none) :
      Credits s claim (.deferred token)
        { s with parked := s.parked.insert (token, claim.nonce) d }

theorem Registry.depositedCredits {amount : Amount} {sender : Address}
    {receiver : String} (listed : Listed s) (event : claim.event = .deposit token amount sender receiver)
    (h : Yields (deposited claim.nonce token amount receiver) s e t) : Credits s claim e t := by
  rcases depositedYields h with ⟨⟨_, invalid⟩, rfl, rfl⟩ | ⟨a, valid, rest⟩
  · refine .uncredited (fun k => ?_) (fun _ => rfl) .here
    simp [Claim.credits?, event, invalid, Except.toOption]
  · have credited : ∀ k, claim.credits? k = if token = k then some (a, amount) else none := by
      intro k
      simp [Claim.credits?, event, valid, Except.toOption]
    rcases rest with ⟨p, paired, paid⟩ | ⟨unpaired, rfl, rfl⟩
    · rcases payOutYields paid with ⟨ours, _, _, rfl, rfl⟩ | ⟨ours, rfl, rfl⟩ | ⟨foreign, rfl, rfl⟩
      · refine .paid credited paired (fun contract => ?_) ⟨rfl, rfl, rfl⟩
        rw [if_neg (listed.ours _ _ paired ours contract)]
        exact mintsOnPayout ..
      · refine .paid credited paired (fun contract => ?_) .here
        rw [if_neg (listed.ours _ _ paired ours contract)]
        rfl
      · obtain ⟨c, asset⟩ := listed.foreign _ _ paired foreign
        refine .paid credited paired (fun contract => ?_) .here
        rw [asset]
        by_cases same : c = contract
        · simp [Effect.messages, mintsOn, LedgerMessage.mints?, same]
        · simp [Effect.messages, mintsOn, LedgerMessage.mints?, same]
    · exact .parked (d := ⟨claim.nonce, a, amount⟩) credited unpaired

theorem Batching.executedCredits {nonce : UInt64} (uncredited : ∀ k, claim.credits? k = none)
    (h : Yields (executed token nonce) s e t) : Credits s claim e t := by
  rcases executedYields h with ⟨_, rfl, rfl⟩ | ⟨_, _, _, _, _, older, last⟩
  · exact .uncredited uncredited (fun _ => rfl) .here
  · have cleared := (clearedMoves nonce older).deposits
    split at last
    · obtain ⟨rfl, rfl⟩ := last
      exact .uncredited uncredited (fun _ => rfl) cleared
    · rcases settleYields last with ⟨_, _, _, rfl, rfl⟩ | ⟨_, rfl, rfl⟩
      · exact .uncredited uncredited (fun _ => rfl) ⟨cleared.pairings, cleared.tokenOf, cleared.parked⟩
      · refine .uncredited uncredited (fun contract => ?_) cleared
        split
        · split <;> rfl
        · rfl

theorem Observing.takeEffectCredits (listed : Listed s) (h : Yields (takeEffect block claim) s e t) :
    Credits s claim e t := by
  have uncredited (event : ∀ k n x y, claim.event ≠ .deposit k n x y) (k : Address) :
      claim.credits? k = none := by
    unfold Claim.credits?
    split
    · rename_i kind
      exact absurd kind (event _ _ _ _)
    · rfl
  unfold takeEffect at h
  split at h
  · rename_i event
    exact Registry.depositedCredits listed event h
  · rename_i event
    exact Batching.executedCredits (uncredited (by simp [event])) h
  · rename_i event
    obtain ⟨_, rfl, rfl⟩ := callExecutedYields h
    exact .uncredited (uncredited (by simp [event])) (fun _ => rfl) ⟨rfl, rfl, rfl⟩
  · rename_i event
    rcases Registry.deployedYields h with ⟨_, _, rfl, rfl⟩ | ⟨free, rfl, rfl⟩
    · exact .uncredited (uncredited (by simp [event])) (fun _ => rfl) .here
    · exact .paired (uncredited (by simp [event])) free rfl nofun
  · rename_i event
    obtain ⟨rfl, rfl⟩ := SignerSet.installedYields h
    exact .uncredited (uncredited (by simp [event])) (fun _ => rfl) ⟨rfl, rfl, rfl⟩

theorem Credits.listed (h : Credits s claim e t) (listed : Listed s) : Listed t := by
  cases h with
  | uncredited _ _ kept => exact kept.listed listed
  | paired _ free ours native =>
    refine Registry.pairListed listed free (fun _ => native) fun foreign => ?_
    rw [ours] at foreign
    cases foreign
  | paid _ _ _ kept => exact kept.listed listed
  | parked => exact ⟨listed.named, listed.ours, listed.foreign⟩

theorem Credits.credited (h : Credits s claim e t) (listed : Listed s) (inv : Credited s ms cs)
    (fresh : ∀ k, s.parked.get? (k, claim.nonce) = none) :
    Credited t (ms ++ e.messages) (cs ++ [claim]) := by
  cases h with
  | uncredited uncredited unminting kept =>
    exact inv.keep kept unminting fun k => by rw [creditsOfOne, uncredited]; rfl
  | @paired p uncredited free _ native =>
    have same : ∀ k, creditsOf k (cs ++ [claim]) = creditsOf k cs := fun k => by
      rw [creditsOfAppend, creditsOfOne, uncredited]
      exact List.append_nil _
    constructor
    case minted =>
      intro k q contract found isCw20
      rw [mintsOnAppend, same]
      rcases Registry.pairedBy found with ⟨rfl, _⟩ | old
      · exact absurd isCw20 (native contract)
      · exact (List.append_nil _).symm ▸ inv.minted k q contract old isCw20
    case unminted =>
      intro contract unpaired
      rw [mintsOnAppend]
      refine (List.append_nil _).trans (inv.unminted contract fun k q found => ?_)
      exact unpaired k q (Registry.pairedStill free found)
    case parked =>
      intro k unpaired
      rw [same]
      refine inv.parked k ?_
      cases found : s.pairings.get? k with
      | none => rfl
      | some q =>
        rw [Registry.pairedStill free found] at unpaired
        cases unpaired
  | @paid token c p _ _ credited paired minted kept =>
    constructor
    case minted =>
      intro k q contract found isCw20
      rw [kept.pairings] at found
      rw [mintsOnAppend, creditsOfAppend, creditsOfOne, minted, credited]
      refine (inv.minted k q contract found isCw20).append ?_
      by_cases here : token = k
      · subst here
        rw [paired] at found
        cases found
        rw [if_pos isCw20, if_pos rfl]
        rfl
      · have apart : p.asset ≠ .cw20 contract := fun same =>
          here (listed.sameToken paired found (same.trans isCw20.symm))
        rw [if_neg apart, if_neg here]
        rfl
    case unminted =>
      intro contract unpaired
      rw [kept.pairings] at unpaired
      rw [mintsOnAppend, inv.unminted contract unpaired, minted, if_neg (unpaired _ _ paired)]
      rfl
    case parked =>
      intro k unpaired
      rw [kept.pairings] at unpaired
      have apart : token ≠ k := fun same => by
        rw [same, unpaired] at paired
        cases paired
      rw [creditsOfAppend, creditsOfOne, credited, if_neg apart,
        Registry.parkedCreditsSame (s := s) fun n => by rw [kept.parked]]
      exact (List.append_nil _).symm ▸ inv.parked k unpaired
  | @parked token d credited unpaired =>
    constructor
    case minted =>
      intro k q contract found isCw20
      have apart : token ≠ k := fun same => by
        have found : s.pairings.get? k = some q := found
        rw [← same, unpaired] at found
        cases found
      rw [mintsOnAppend, creditsOfAppend, creditsOfOne, credited, if_neg apart]
      exact (inv.minted k q contract found isCw20).append (.refl _)
    case unminted =>
      intro contract unpaired
      rw [mintsOnAppend, inv.unminted contract unpaired]
      rfl
    case parked =>
      intro k free
      rw [creditsOfAppend, creditsOfOne, credited]
      split
      · rename_i same
        subst same
        have entered := (Registry.parkedForInsert (d := d) (fresh token)
          (t := { s with parked := s.parked.insert (token, claim.nonce) d }) rfl).map
            ParkedDeposit.credit
        refine entered.trans (((inv.parked token unpaired).cons d.credit).trans ?_)
        exact (List.perm_append_singleton ..).symm
      · rename_i apart
        rw [Registry.parkedCreditsSame (s := s) fun n => by
          rw [SortedMap.getInsertOther _ _ fun same => apart (Prod.mk.inj same).1]]
        exact (List.append_nil _).symm ▸ inv.parked k free

structure DepositsBooked (s : Store) (ms : List LedgerMessage) (os : List Observation) : Prop where
  parking : Parking s os
  listed : Listed s
  credited : Credited s ms (os.map Observation.claim)

theorem DepositsKept.booked {ns : List LedgerMessage} (kept : DepositsKept s t)
    (unminting : ∀ contract, mintsOn contract ns = []) (booked : DepositsBooked s ms os) :
    DepositsBooked t (ms ++ ns) os where
  parking := ParkingKept.parking ⟨kept.parked, kept.pairings⟩ booked.parking
  listed := kept.listed booked.listed
  credited := by
    have credited : Credited t (ms ++ ns) (os.map Observation.claim ++ []) :=
      booked.credited.keep kept unminting fun _ => rfl
    rwa [List.append_nil] at credited

theorem DepositsKept.bookedStill (kept : DepositsKept s t) (booked : DepositsBooked s ms os) :
    DepositsBooked t ms os := by
  have after : DepositsBooked t (ms ++ []) os := kept.booked (fun _ => rfl) booked
  rwa [List.append_nil] at after

theorem Observing.observedBooked {o : Observation} (booked : DepositsBooked s ms os)
    (fresh : ∀ x ∈ os, x.claim.nonce ≠ o.claim.nonce)
    (effect : Yields (takeEffect block o.claim) s o.effect t) :
    DepositsBooked t (ms ++ o.effect.messages) (os ++ [o]) := by
  have credits := takeEffectCredits booked.listed effect
  refine ⟨(takeEffectParks effect).parking booked.parking rfl fresh, credits.listed booked.listed, ?_⟩
  rw [List.map_append]
  refine credits.credited booked.listed booked.credited fun k => ?_
  cases found : s.parked.get? (k, o.claim.nonce) with
  | none => rfl
  | some d =>
    obtain ⟨⟨x, observed, defers⟩, _⟩ := (booked.parking k _ d).1 found
    exact absurd defers.atNonce (fresh x observed)

theorem Observing.passBooked {later : List Observation} (inv : InOrder s os)
    (booked : DepositsBooked s ms os) (pass : Pass .stored block s later t) :
    DepositsBooked t (ms ++ later.flatMap fun o => o.effect.messages) (os ++ later) := by
  induction pass generalizing os ms with
  | rest =>
    rw [List.append_nil, List.flatMap_nil, List.append_nil]
    exact booked
  | @observe s u _ nonce fingerprint a e _ _ next won effect _ ih =>
    obtain ⟨here, _, _⟩ := winnerFound won
    have kept : DepositsKept s (mark nonce fingerprint a s) := ⟨rfl, rfl, rfl⟩
    have fresh : ∀ x ∈ os, x.claim.nonce ≠ a.claim.nonce := by
      rw [inv.atNonce _ _ _ here]
      exact inv.fresh next
    have entered := observedBooked (o := ⟨nonce, fingerprint, a.claim, a.votes.length,
      (mark nonce fingerprint a s).ethHeight, e⟩) (kept.bookedStill booked) fresh effect
    have rest := ih (observedInOrder inv next here effect).1 entered
    rw [List.append_assoc, List.append_assoc] at rest
    exact rest

theorem Registry.registeredBooked {a : Account} (booked : DepositsBooked s ms os)
    (free : pairingFault? s token (.cw20 a) = none)
    (after : t = unparkAll token (parkedFor s token) (pair ⟨token, .cw20 a, false⟩ s)) :
    DepositsBooked t (ms ++ (parkedFor s token).map (mint a)) os := by
  obtain ⟨untaken, unlisted⟩ := pairingFree free
  have parking := registeredParking booked.parking untaken after
  have unparked := unparkedGet booked.parking ⟨token, .cw20 a, false⟩ token
  obtain ⟨_, same⟩ := unparkAllMoves token (parkedFor s token) (pair ⟨token, .cw20 a, false⟩ s)
  have listed := pairListed (p := ⟨token, .cw20 a, false⟩) booked.listed free nofun fun _ => ⟨a, rfl⟩
  have paired : t.pairings = (pair ⟨token, .cw20 a, false⟩ s).pairings := by rw [after, same]
  -- The contract is new to the registry, so nothing was minted on it before.
  have unpaired : ∀ k p, s.pairings.get? k = some p → p.asset ≠ .cw20 a := by
    intro k p found same
    have named := booked.listed.named k p found
    rw [same, unlisted] at named
    cases named
  refine ⟨parking.1, ?_, ?_⟩
  · rw [after, same]
    exact ⟨listed.named, listed.ours, listed.foreign⟩
  constructor
  case minted =>
    intro k q contract found isCw20
    rw [paired] at found
    rw [mintsOnAppend, mintsOnMints]
    rcases pairedBy found with ⟨rfl, here⟩ | old
    · cases isCw20
      rw [if_pos rfl, booked.credited.unminted a unpaired, here]
      exact booked.credited.parked token untaken
    · have apart : a ≠ contract := fun same => unpaired k q old (same ▸ isCw20)
      rw [if_neg apart, List.append_nil]
      exact booked.credited.minted k q contract old isCw20
  case unminted =>
    intro contract absent
    rw [paired] at absent
    have apart : a ≠ contract := fun same =>
      absent token ⟨token, .cw20 a, false⟩ (SortedMap.getInsertSelf ..) (same ▸ rfl)
    rw [mintsOnAppend, mintsOnMints, if_neg apart, List.append_nil]
    exact booked.credited.unminted contract fun k q found => absent k q (pairedStill free found)
  case parked =>
    intro k absent
    rw [paired] at absent
    have apart : token ≠ k := fun same => by
      rw [← same, pair, SortedMap.getInsertSelf] at absent
      cases absent
    rw [parkedCreditsSame (s := s) fun n => by rw [after, unparked, if_neg apart]]
    refine booked.credited.parked k ?_
    rwa [pair, SortedMap.getInsertOther _ _ apart] at absent

theorem Movement.depositsBooked (inv : InOrder s os) (booked : DepositsBooked s ms os)
    (moved : Movement block s order r t) :
    DepositsBooked t (ms ++ r.messages) (os ++ r.observations) := by
  have quiet (unobserving : r.observations = []) (kept : DepositsKept s t)
      (unminting : ∀ contract, mintsOn contract r.messages = []) :
      DepositsBooked t (ms ++ r.messages) (os ++ r.observations) := by
    rw [unobserving, List.append_nil]
    exact kept.booked unminting booked
  cases moved with
  | administered _ _ moved silent unobserving =>
    exact quiet unobserving moved.deposits fun _ => by rw [silent]; rfl
  | reported _ after silent unobserving =>
    have kept := (Directory.reportMoves order.reports s).deposits
    rw [← after] at kept
    exact quiet unobserving kept fun _ => by rw [silent]; rfl
  | entered _ _ _ _ _ answer after =>
    exact quiet (by rw [answer]; rfl) (by rw [after]; exact ⟨rfl, rfl, rfl⟩) fun _ => by rw [answer]; rfl
  | cancelled _ _ _ _ paid unobserving after =>
    exact quiet unobserving (by rw [after]; exact ⟨rfl, rfl, rfl⟩) fun _ => by
      rw [paid]
      exact mintsOnPayout ..
  | assembled _ _ made silent unobserving =>
    obtain ⟨_, moved⟩ := Batching.assembleMoves made
    have kept := moved.deposits
    exact quiet unobserving ⟨kept.pairings, kept.tokenOf, kept.parked⟩ fun _ => by rw [silent]; rfl
  | registered _ _ free after minted unobserving =>
    rw [unobserving, List.append_nil, minted]
    exact Registry.registeredBooked booked free after
  | observed _ _ voted pass returned moved answers =>
    have passed :=
      Observing.passBooked (voted.inOrder inv).1 (voted.deposits.bookedStill booked) pass
    have back := (Batching.dissolvesMove returned).deposits.bookedStill passed
    rw [answers.messages, answers.observations]
    exact moved.deposits.bookedStill back

theorem DepositsBooked.empty : DepositsBooked .empty [] [] where
  parking k n d := by
    refine ⟨fun found => (nomatch found), ?_⟩
    rintro ⟨⟨_, none, _⟩, _⟩
    cases none
  listed := ⟨fun _ _ found => (nomatch found), fun _ _ found => (nomatch found),
    fun _ _ found => (nomatch found)⟩
  credited := .empty

theorem Contract.setUpDeposits {m : Setup} (h : Yields (Contract.setUp m) .empty r t) :
    DepositsBooked t r.messages r.observations := by
  obtain ⟨_, _, after, silent, unobserving⟩ := Contract.setUpYields h
  have kept : DepositsKept .empty t := by
    obtain ⟨_, _, same⟩ := Directory.reportMoves m.stakes _
    rw [after, same]
    exact ⟨rfl, rfl, rfl⟩
  rw [silent, unobserving]
  exact kept.bookedStill .empty

def Store.observedClaims (s : Store) : List Claim :=
  (s.attestations.entries.filter fun e => e.2.observed).map fun e => e.2.claim

theorem Store.memObservedClaims {c : Claim} :
    c ∈ s.observedClaims ↔ ∃ n p, s.observed? n p = some c := by
  simp only [observedClaims, List.mem_map, List.mem_filter, observedIff]
  constructor
  · rintro ⟨⟨⟨n, p⟩, a⟩, ⟨found, observed⟩, same⟩
    exact ⟨n, p, a, SortedMap.getIff.2 found, observed, same⟩
  · rintro ⟨n, p, a, found, observed, same⟩
    exact ⟨((n, p), a), ⟨SortedMap.getIff.1 found, observed⟩, same⟩

theorem InOrder.claimsDistinct (inv : InOrder s os) : s.observedClaims.Nodup := by
  refine ((SortedMap.entriesNodup _).filter _).map_on ?_
  rintro ⟨⟨n, p⟩, a⟩ first ⟨⟨n', p'⟩, a'⟩ second same
  obtain ⟨found, observed⟩ := List.mem_filter.1 first
  obtain ⟨found', observed'⟩ := List.mem_filter.1 second
  have here := SortedMap.getIff.2 found
  have here' := SortedMap.getIff.2 found'
  have atNonce : n = n' := by
    rw [← inv.atNonce _ _ _ here, ← inv.atNonce _ _ _ here']
    exact congrArg Claim.nonce same
  subst atNonce
  obtain rfl := inv.alone n p p' _ _ (Store.observedIff.2 ⟨a, here, observed, rfl⟩)
    (Store.observedIff.2 ⟨a', here', observed', rfl⟩)
  rw [here] at here'
  cases here'
  rfl

theorem InOrder.observedClaims (inv : InOrder s os) :
    (os.map Observation.claim).Perm s.observedClaims := by
  have distinct : (os.map Observation.claim).Nodup := by
    refine List.Nodup.of_map (fun c => c.nonce.toNat) ?_
    rw [List.map_map]
    exact inv.counted ▸ List.nodup_range'
  refine (List.perm_ext_iff_of_nodup distinct inv.claimsDistinct).2 fun c => ?_
  rw [Store.memObservedClaims, List.mem_map]
  constructor
  · rintro ⟨o, observed, rfl⟩
    exact ⟨_, _, inv.sources o observed⟩
  · rintro ⟨n, p, found⟩
    exact inv.observedFrom found

namespace Journal

variable {j : Journal}

theorem Run.depositsBooked (run : Run j) : DepositsBooked j.store j.messages j.observations := by
  refine Run.keeps ?setUp ?deed run
  case setUp =>
    intro block m r t yields
    simpa [messages, observations] using Contract.setUpDeposits yields
  case deed =>
    intro j block order r t past booked later yields
    have after := (Chain.laterMovement later yields).depositsBooked past.inOrder booked
    simpa [messages, observations] using after

def mintedFor (j : Journal) (token : Address) : List Credit :=
  match (j.store.pairings.get? token).map Pairing.asset with
  | some (.cw20 contract) => mintsOn contract j.messages
  | _ => []

theorem Run.creditedOnce (run : Run j) (token : Address)
    (foreign : ∀ p, j.store.pairings.get? token = some p → p.ofThisChain = false) :
    (j.mintedFor token ++ j.store.parkedCredits token).Perm
      (creditsOf token j.store.observedClaims) ∧
    (j.store.pairings.get? token ≠ none → j.store.parkedCredits token = []) ∧
    ∀ contract, (∀ k p, j.store.pairings.get? k = some p → p.asset ≠ .cw20 contract) →
      mintsOn contract j.messages = [] := by
  obtain ⟨parking, listed, credited⟩ := run.depositsBooked
  have claims : (creditsOf token (j.observations.map Observation.claim)).Perm
      (creditsOf token j.store.observedClaims) := run.inOrder.observedClaims.filterMap _
  have cleared {p : Pairing} (paired : j.store.pairings.get? token = some p) :
      j.store.parkedCredits token = [] := by
    refine List.map_eq_nil_iff.2 (List.eq_nil_iff_forall_not_mem.2 fun d parked => ?_)
    obtain ⟨n, found⟩ := Registry.parkedForIff.1 parked
    have ours := ((parking token n d).1 found).2 p paired
    rw [foreign p paired] at ours
    cases ours
  unfold mintedFor
  cases paired : j.store.pairings.get? token with
  | none =>
    refine ⟨?_, fun absent => absurd rfl absent, credited.unminted⟩
    exact (credited.parked token paired).trans claims
  | some p =>
    obtain ⟨contract, asset⟩ := listed.foreign _ _ paired (foreign p paired)
    refine ⟨?_, fun _ => cleared paired, credited.unminted⟩
    rw [cleared paired, List.append_nil, Option.map_some, asset]
    exact (credited.minted _ p _ paired asset).trans claims

def replayed : Journal :=
  ((opened.deliverAll
    [(⟨102, 3⟩, deposit 1 (.small 100) "alice"), (⟨103, 4⟩, deposit 2 (.small 9) ""),
      (⟨104, 5⟩, deposit 3 (.small 5) "bob")]).deliver ⟨105, 6⟩ registration).deliver ⟨106, 7⟩
    (deposit 4 (.small 7) "alice")
where
  deposit (nonce : UInt64) (amount : Amount) (receiver : String) : Order :=
    .execute ⟨⟨"orch"⟩, []⟩ (.submitClaim ⟨nonce, 50, .deposit .zero amount .zero receiver⟩)

theorem replayedRun : Run replayed := .order (.order (openedRun.deliverAll (by decide)) _ _ rfl) _ _ rfl

theorem replayedStore :
    (replayed.store.pairings.get? .zero).map Pairing.ofThisChain = some false ∧
      replayed.mintedFor .zero = [(⟨"alice"⟩, ⟨100, by decide⟩), (⟨"bob"⟩, ⟨5, by decide⟩),
        (⟨"alice"⟩, ⟨7, by decide⟩)] := by
  decide +kernel

theorem replayedCredited :
    Run replayed ∧ (∀ p, replayed.store.pairings.get? .zero = some p → p.ofThisChain = false) ∧
      (replayed.mintedFor .zero).Perm (creditsOf .zero replayed.store.observedClaims) ∧
      replayed.mintedFor .zero = [(⟨"alice"⟩, ⟨100, by decide⟩), (⟨"bob"⟩, ⟨5, by decide⟩),
        (⟨"alice"⟩, ⟨7, by decide⟩)] := by
  obtain ⟨origin, minted⟩ := replayedStore
  have foreign : ∀ p, replayed.store.pairings.get? .zero = some p → p.ofThisChain = false := by
    intro p paired
    simpa [paired] using origin
  obtain ⟨credited, cleared, _⟩ := Run.creditedOnce replayedRun .zero foreign
  have parked := cleared fun absent => by simp [absent] at origin
  rw [parked, List.append_nil] at credited
  exact ⟨replayedRun, foreign, credited, minted⟩

end Journal

end TokenBridge
