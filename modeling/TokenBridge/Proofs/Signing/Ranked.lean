import TokenBridge.Proofs.Signing.Drift
import TokenBridge.Proofs.Signing.Stored
import TokenBridge.Proofs.Stakes.Share
import Mathlib.Algebra.Order.BigOperators.Group.List
import Mathlib.Algebra.Order.Group.Nat
/-!
The signers of now in their order. A sort by rank leaves no element behind one of higher rank, and signers with
addresses of their own share no rank. Every signer is the bound signer of a validator with stake, its power is that
stake against what all of these have together, and no power exceeds the scale.
-/
namespace TokenBridge

namespace Key

variable {κ : Type} [Key κ] {a b c : κ}

theorem asymm (h : before a b = true) : before b a = false := by
  cases after : before b a with
  | false => rfl
  | true =>
    have loop := trans h after
    rw [irrefl] at loop
    exact loop.symm

theorem transNot (h : before b a = false) (h' : before c b = false) : before c a = false := by
  cases first : before c a with
  | false => rfl
  | true =>
    -- Either a stands before b, and so does c, or the two are the same.
    cases next : before a b with
    | true => exact (trans first next).symm.trans h'
    | false =>
      obtain rfl := total next h
      exact first.symm.trans h'

end Key

namespace Sorting

variable {α κ : Type} [Key κ] {precedes : α → α → Bool} {rank : α → κ} {xs : List α}

theorem insertSorted (ranks : ∀ a b, precedes a b = Key.before (rank a) (rank b)) (a : α)
    (sorted : xs.Pairwise fun a b => precedes b a = false) :
    (insert precedes a xs).Pairwise fun a b => precedes b a = false := by
  induction xs with
  | nil => exact List.pairwise_singleton ..
  | cons b rest ih =>
    obtain ⟨first, later⟩ := List.pairwise_cons.1 sorted
    rw [insert]
    split
    · rename_i before
      refine List.pairwise_cons.2 ⟨fun c inside => ?_, ih later⟩
      rcases List.mem_cons.1 ((insertPerm precedes a rest).mem_iff.1 inside) with rfl | inside
      · rw [ranks] at before ⊢
        exact Key.asymm before
      · exact first c inside
    · rename_i notBefore
      have notBefore : precedes b a = false := Bool.eq_false_of_not_eq_true notBefore
      refine List.pairwise_cons.2 ⟨fun c inside => ?_, sorted⟩
      rcases List.mem_cons.1 inside with rfl | inside
      · exact notBefore
      · have after := first c inside
        rw [ranks] at notBefore after ⊢
        exact Key.transNot notBefore after

theorem sortSorted (ranks : ∀ a b, precedes a b = Key.before (rank a) (rank b)) (xs : List α) :
    (sort precedes xs).Pairwise fun a b => precedes b a = false := by
  induction xs with
  | nil => exact .nil
  | cons a rest ih => exact insertSorted ranks a ih

theorem sortStrict (ranks : ∀ a b, precedes a b = Key.before (rank a) (rank b))
    (apart : (xs.map rank).Nodup) : (sort precedes xs).Pairwise fun a b => precedes a b = true := by
  have distinct := List.pairwise_map.1 (((sortPerm precedes xs).map rank).nodup_iff.2 apart)
  refine ((sortSorted ranks xs).and distinct).imp ?_
  rintro a b ⟨notAfter, different⟩
  rw [ranks] at notAfter ⊢
  by_contra notBefore
  exact different (Key.total (Bool.eq_false_of_not_eq_true notBefore) notAfter)

end Sorting

namespace Signer

variable {a b : Signer} {members : List Signer}

def rank (m : Signer) : Nat × Address := (UInt64.size - m.power.toNat, m.address)

theorem precedesIff : precedes a b = true ↔
    b.power.toNat < a.power.toNat ∨ a.power = b.power ∧ Key.before a.address b.address = true := by
  simp [precedes, Counter.below]

theorem rankPower : a.rank.1 = b.rank.1 ↔ a.power = b.power := by
  have bound := a.power.toNat_lt
  have bound' := b.power.toNat_lt
  have size : UInt64.size = 2 ^ 64 := rfl
  rw [rank, rank, ← UInt64.toNat_inj]
  omega

theorem rankBefore : Key.before a.rank.1 b.rank.1 = true ↔ b.power.toNat < a.power.toNat := by
  have bound := a.power.toNat_lt
  have size : UInt64.size = 2 ^ 64 := rfl
  show Nat.blt _ _ = true ↔ _
  rw [Nat.blt_eq, rank, rank]
  omega

theorem precedesRank (a b : Signer) : precedes a b = Key.before a.rank b.rank := by
  rw [Bool.eq_iff_iff, precedesIff, Key.pairBeforeIff, rankBefore, rankPower]
  rfl

theorem memRanked {m : Signer} : m ∈ ranked members ↔ m ∈ members := (Sorting.sortPerm ..).mem_iff

theorem rankedStrict (apart : (members.map address).Nodup) :
    (ranked members).Pairwise fun a b => precedes a b = true := by
  refine Sorting.sortStrict precedesRank (List.pairwise_map.2 ((List.pairwise_map.1 apart).imp ?_))
  rintro a b different same
  exact different (congrArg Prod.snd same)

end Signer

namespace StakeView

variable {view : StakeView} {s : Store} {v : Account} {stake : UInt64} {a : Address} {m : Signer}

def Backs (view : StakeView) (s : Store) (v : Account) (stake : UInt64) (a : Address) : Prop :=
  (v, stake) ∈ view.staked s ∧ stake ≠ 0 ∧ s.signerOf.get? v = some a

def boundStake (view : StakeView) (s : Store) : Nat :=
  (((view.staked s).filter fun e => s.signerOf.contains e.1).map fun e => e.2.toNat).sum

def boundTotal (view : StakeView) (s : Store) : UInt64 :=
  (view.boundStakes s).foldl (fun sum e => Counter.cappedAdd sum e.2) 0

theorem memBound : (a, stake) ∈ view.boundStakes s ↔ ∃ v, view.Backs s v stake a := by
  rw [boundStakes, List.mem_filterMap]
  constructor
  · rintro ⟨e, listed, found⟩
    obtain ⟨powered, signs, rfl⟩ := boundIff.1 found
    exact ⟨e.1, listed, powered, signs⟩
  · rintro ⟨v, listed, powered, signs⟩
    exact ⟨(v, stake), listed, (boundIff (e := (v, stake))).2 ⟨powered, signs, rfl⟩⟩

theorem signersRanked (view : StakeView) (s : Store) : view.signers s =
    Signer.ranked ((view.boundStakes s).map fun e => ⟨Power.scaled e.2 (view.boundTotal s), e.1⟩) := rfl

theorem memSigners : m ∈ view.signers s ↔
    ∃ v stake, view.Backs s v stake m.address ∧ m.power = Power.scaled stake (view.boundTotal s) := by
  rw [signersRanked, Signer.memRanked, List.mem_map]
  constructor
  · rintro ⟨⟨a, stake⟩, bound, rfl⟩
    obtain ⟨v, backs⟩ := memBound.1 bound
    exact ⟨v, stake, backs, rfl⟩
  · rintro ⟨v, stake, backs, power⟩
    refine ⟨(m.address, stake), memBound.2 ⟨v, backs⟩, ?_⟩
    rw [← power]

theorem boundStakeSum : ((view.boundStakes s).map fun e => e.2.toNat).sum = view.boundStake s := by
  unfold boundStakes boundStake
  induction view.staked s with
  | nil => rfl
  | cons e rest ih =>
    obtain ⟨v, stake⟩ := e
    cases signs : s.signerOf.get? v with
    | none => simpa [signs, SortedMap.contains] using ih
    | some a =>
      by_cases zero : stake = 0
      · simpa [signs, zero, SortedMap.contains] using ih
      · simpa [signs, zero, SortedMap.contains] using ih

theorem boundTotalVal : (view.boundTotal s).toNat = min (view.boundStake s) Counter.largest := by
  rw [boundTotal, Counter.cappedSumVal Prod.snd, boundStakeSum, UInt64.toNat_zero, Nat.zero_add]

theorem stakeWithin (backs : view.Backs s v stake a) : stake.toNat ≤ view.boundStake s := by
  have bound : stake.toNat ∈ (view.boundStakes s).map fun e => e.2.toNat :=
    List.mem_map.2 ⟨(a, stake), memBound.2 ⟨v, backs⟩, rfl⟩
  rw [← boundStakeSum]
  exact List.single_le_sum (fun _ _ => Nat.zero_le _) _ bound

theorem signerScaled (member : m ∈ view.signers s) : m.power.toNat ≤ Power.maximum := by
  obtain ⟨v, stake, backs, power⟩ := memSigners.1 member
  have within := stakeWithin backs
  have least := Counter.leLargest stake
  rw [power]
  refine scaledLe ?_
  rw [boundTotalVal]
  exact Nat.le_min.2 ⟨within, least⟩

theorem signerBound (member : m ∈ view.signers s) : ∃ v, s.signerOf.get? v = some m.address := by
  obtain ⟨v, _, backs, _⟩ := memSigners.1 member
  exact ⟨v, backs.2.2⟩

end StakeView

namespace SignerSet

variable {view : StakeView} {s : Store} {height : UInt64} {now : SignerSet}

theorem currentMembers (made : current view height s = .ok now) :
    now.members = Signer.ranked (view.signers s) := by
  obtain ⟨_, _, _, _, rfl⟩ := currentOk made
  rfl

theorem currentDistinct (apart : s.SignersApart) (made : current .stored height s = .ok now) :
    (now.members.map Signer.address).Nodup := by
  rw [currentMembers made]
  exact ((Sorting.sortPerm ..).map _).nodup_iff.2 (StakeView.signersApart apart)

end SignerSet

end TokenBridge
