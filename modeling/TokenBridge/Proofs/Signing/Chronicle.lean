import TokenBridge.Proofs.Directory.Keys
import TokenBridge.Proofs.Signing.Ranked
/-!
The signer sets of a run, told from the first to the latest. Whoever asks for a set, and whatever the end of a block
stores, take the next nonce of one counter; each set is ranked, of bound signers, and listed with the others from the
newest down.
-/
namespace TokenBridge

open TokenBridge.Action

variable {s t : Store} {block : Block} {height : UInt64} {set : SignerSet} {members : List Signer}

structure Store.Ranks (s : Store) (members : List Signer) : Prop where
  filled : members ≠ []
  apart : (members.map Signer.address).Nodup
  bound : ∀ m ∈ members, ∃ v, s.signerOf.get? v = some m.address
  ordered : members.Pairwise fun a b => Signer.precedes a b = true
  scaled : ∀ m ∈ members, m.power.toNat ≤ Power.maximum

theorem Store.Ranks.last (h : s.Ranks members) (last : BindingsLast s t) : t.Ranks members where
  filled := h.filled
  apart := h.apart
  bound m member := by
    obtain ⟨v, signs⟩ := h.bound m member
    exact ⟨v, last.signs v m.address signs⟩
  ordered := h.ordered
  scaled := h.scaled

theorem SignerSet.currentRanks (apart : s.SignersApart) (made : current .stored height s = .ok set)
    (filled : set.members ≠ []) : s.Ranks set.members := by
  have distinct := currentDistinct apart made
  have members := currentMembers made
  have signer {m : Signer} (member : m ∈ set.members) : m ∈ StakeView.stored.signers s :=
    Signer.memRanked.1 (members ▸ member)
  refine ⟨filled, distinct, fun m member => StakeView.signerBound (signer member), ?_,
    fun m member => StakeView.signerScaled (signer member)⟩
  rw [members]
  exact Signer.rankedStrict (StakeView.signersApart apart)

structure Chronicled (s : Store) : Prop where
  listed : ∀ n, s.signerSets.contains n = true ↔ 1 ≤ n.toNat ∧ n.toNat ≤ s.latestSet.toNat
  ranks : ∀ n set, s.signerSets.get? n = some set → s.Ranks set.members

theorem Chronicled.empty (sets : s.signerSets = ∅) (latest : s.latestSet = 0) : Chronicled s where
  listed n := by
    rw [sets, latest]
    exact iff_of_false nofun fun bounds => absurd (Nat.le_trans bounds.1 bounds.2) (by decide)
  ranks n set found := by
    rw [sets] at found
    cases found

theorem SigningKept.chronicled (kept : SigningKept s t) (last : BindingsLast s t) (h : Chronicled s) :
    Chronicled t where
  listed := by
    rw [kept.signerSets, kept.latestSet]
    exact h.listed
  ranks n set found := by
    rw [kept.signerSets] at found
    exact (h.ranks n set found).last last

theorem SignerSet.keepBindings : BindingsLast s (keep set s) :=
  ⟨fun _ _ bound => bound, fun _ _ bound => bound⟩

theorem Chronicled.keep (h : Chronicled s) (apart : s.SignersApart)
    (made : SignerSet.current .stored height s = .ok set) (filled : set.members ≠ []) :
    Chronicled (SignerSet.keep set s) := by
  have ranks := SignerSet.currentRanks apart made filled
  obtain ⟨_, nonce, _, next, rfl⟩ := SignerSet.currentOk made
  have later := Counter.nextVal next
  constructor
  case listed =>
    intro n
    have old := h.listed n
    simp only [SignerSet.keep, SignerSet.canonical, SortedMap.contains, SortedMap.getInsert] at old ⊢
    split
    · rename_i same
      subst same
      exact iff_of_true rfl ⟨by omega, Nat.le_refl _⟩
    · rename_i apart
      have different : n.toNat ≠ nonce.toNat := fun same => apart (UInt64.toNat_inj.1 same).symm
      rw [old]
      omega
  case ranks =>
    intro n set found
    simp only [SignerSet.keep, SortedMap.getInsert] at found
    split at found
    · cases found
      exact ranks.last SignerSet.keepBindings
    · exact (h.ranks n set found).last SignerSet.keepBindings

theorem Signing.chronicled (h : Chronicled s) (last : BindingsLast s t) (apart : t.SignersApart)
    (signing : Signing block s t) : Chronicled t := by
  cases signing with
  | kept kept => exact kept.chronicled last h
  | amended _ after _ _ =>
    subst after
    exact ⟨h.listed, fun n set found => (h.ranks n set found).last last⟩
  | @stored u set kept made filled after =>
    -- Storing a set leaves bindings alone, so they are after the order what they were when the set was made.
    subst after
    exact (kept.chronicled ⟨last.led, last.signs⟩ h).keep apart made filled

theorem Answers.lastSetsListed (h : Chronicled s) (limit : Option UInt32) :
    (lastSets s limit).map some = (List.range (min (page limit) s.latestSet.toNat)).map fun i =>
      s.signerSets.get? (UInt64.ofNat (s.latestSet.toNat - i)) := by
  have inTurn : s.signerSets.keys.map UInt64.toNat = List.range' 1 s.latestSet.toNat :=
    SortedMap.keysInTurn h.listed s.latestSet.toNat_lt
  have byNonce : s.signerSets.keys.map s.signerSets.get? =
      (s.signerSets.keys.map UInt64.toNat).map fun n => s.signerSets.get? (UInt64.ofNat n) := by
    simp [Function.comp_def]
  calc (lastSets s limit).map some
      = ((s.signerSets.values.map some).reverse).take (page limit) := by
        rw [lastSets, newestSets, List.map_take, List.map_reverse]
    _ = ((List.range' 1 s.latestSet.toNat).map
          fun n => s.signerSets.get? (UInt64.ofNat n)).reverse.take (page limit) := by
        rw [SortedMap.valuesOfKeys, byNonce, inTurn]
    _ = _ := by
        rw [← List.map_reverse, List.reverse_range', List.map_map, ← List.map_take, List.take_range]
        simp [Function.comp_def]

namespace Journal

variable {j : Journal}

theorem Run.chronicled (run : Run j) : Chronicled j.store := by
  refine Run.keeps ?setUp ?deed run
  case setUp =>
    intro block m r t yields
    obtain ⟨sets, latest, _⟩ := Contract.setUpConfig yields
    exact .empty sets latest
  case deed =>
    intro j block order r t past inv later yields
    have polling := Chain.laterPolling later yields
    exact (Chain.laterSigning later yields).chronicled inv polling.bindingsLast (polling.signersApart past.signersApart)

/-- There is a signer set for each nonce from one to the latest and for no other, ranked as it is signed. -/
theorem Run.setsChronicled (run : Run j) :
    (∀ n, j.store.signerSets.contains n = true ↔ 1 ≤ n.toNat ∧ n.toNat ≤ j.store.latestSet.toNat) ∧
    (∀ n set, j.store.signerSets.get? n = some set →
      set.nonce = n ∧ set.members ≠ [] ∧ (set.members.map Signer.address).Nodup ∧
      (∀ m ∈ set.members, ∃ v, j.store.signerOf.get? v = some m.address ∧
        j.store.validatorOfSigner.get? m.address = some v) ∧
      (set.members.Pairwise fun a b => b.power.toNat < a.power.toNat ∨
        a.power = b.power ∧ Key.before a.address b.address = true) ∧
      ∀ m ∈ set.members, m.power.toNat ≤ 2 ^ 32 - 1) ∧
    ∀ limit, (Answers.lastSets j.store limit).map some =
      (List.range (min j.store.latestSet.toNat (min 50 (limit.getD 5).toNat))).map fun i =>
        j.store.signerSets.get? (UInt64.ofNat (j.store.latestSet.toNat - i)) := by
  have chronicled := run.chronicled
  refine ⟨chronicled.listed, fun n set found => ?_, fun limit => ?_⟩
  · have ranks := chronicled.ranks n set found
    refine ⟨run.signable.keyed n set found, ranks.filled, ranks.apart, fun m member => ?_,
      ranks.ordered.imp Signer.precedesIff.1, ranks.scaled⟩
    obtain ⟨v, signs⟩ := ranks.bound m member
    exact ⟨v, signs, run.signersApart v m.address signs⟩
  · have page : min (Answers.page limit) j.store.latestSet.toNat =
        min j.store.latestSet.toNat (min 50 (limit.getD 5).toNat) := by
      rw [Answers.page, Answers.pageCap, Nat.min_comm, Nat.min_comm (limit.getD 5).toNat]
    rw [Answers.lastSetsListed chronicled, page]

def reranked : Journal :=
  crossed.deliverAll
    [(⟨103, 4⟩, .execute ⟨⟨"alpha"⟩, []⟩ .requestSet),
      (⟨104, 5⟩, .execute ⟨⟨"admin"⟩, []⟩ (.updatePowers [⟨"beta", 90⟩])),
      (⟨105, 6⟩, .execute ⟨⟨"carol"⟩, []⟩ .endBlock)]

theorem rerankedRun : Run reranked := crossedRun.deliverAll (by decide)

theorem rerankedChronicled : Run reranked ∧ ∃ first second,
    reranked.store.signerSets.get? 1 = some first ∧ reranked.store.signerSets.get? 2 = some second ∧
      first.nonce = 1 ∧ second.nonce = 2 ∧ (∀ n, 2 < n.toNat → reranked.store.signerSets.contains n = false) ∧
      first.members.map Signer.address = second.members.reverse.map Signer.address ∧
      Answers.lastSets reranked.store none = [second, first] ∧
      Answers.lastSets reranked.store (some 1) = [second] := by
  obtain ⟨listed, sets, answered⟩ := Run.setsChronicled rerankedRun
  obtain ⟨latest, first, one, second, two, turned⟩ : reranked.store.latestSet = 2 ∧
      ∃ first ∈ reranked.store.signerSets.get? 1, ∃ second ∈ reranked.store.signerSets.get? 2,
        first.members.map Signer.address = second.members.reverse.map Signer.address := by
    decide +kernel
  have short := answered none
  have single := answered (some 1)
  rw [latest] at short single
  have one : reranked.store.signerSets.get? 1 = some first := one
  have two : reranked.store.signerSets.get? 2 = some second := two
  refine ⟨rerankedRun, first, second, one, two, (sets 1 first one).1, (sets 2 second two).1, fun n above => ?_, turned,
    List.map_injective_iff.2 (Option.some_injective _) (short.trans ?_),
    List.map_injective_iff.2 (Option.some_injective _) (single.trans ?_)⟩
  · refine Bool.eq_false_of_not_eq_true fun inside => ?_
    have bounds := (listed n).1 inside
    rw [latest] at bounds
    exact absurd bounds.2 (Nat.not_le_of_lt above)
  · exact congrArg₂ (fun a b => [a, b]) two one
  · exact congrArg (fun a => [a]) two

end Journal

end TokenBridge
