import TokenBridge.Checkpoint
import TokenBridge.Proofs.Signing.Ranked
/-!
One order for the same members. Its rank tells a signer apart from every other, so two signers of which neither comes
first are one, and the members alone, with their repeats, determine the ranking. Whoever is given them, in whatever
order, builds the same set and signs the same checkpoint.
-/
namespace TokenBridge

def Address.small (n : UInt8) : Address := ⟨List.replicate 19 0 ++ [n], by simp⟩

namespace Sorting

variable {α κ : Type} [Key κ] {precedes : α → α → Bool} {rank : α → κ} {xs ys : List α}

theorem sortedUnique (ranks : ∀ a b, precedes a b = Key.before (rank a) (rank b)) (tells : rank.Injective)
    (sorted : xs.Pairwise fun a b => precedes b a = false) (sorted' : ys.Pairwise fun a b => precedes b a = false)
    (same : xs.Perm ys) : xs = ys := by
  refine List.Perm.eq_of_pairwise ?_ sorted sorted' same
  intro a b _ _ notAfter notBefore
  rw [ranks] at notAfter notBefore
  exact tells (Key.total notBefore notAfter)

theorem sortPermuted (ranks : ∀ a b, precedes a b = Key.before (rank a) (rank b)) (tells : rank.Injective)
    (same : xs.Perm ys) : sort precedes xs = sort precedes ys := by
  have sorted := sortSorted ranks xs
  have sorted' := sortSorted ranks ys
  exact sortedUnique ranks tells sorted sorted' ((sortPerm ..).trans (same.trans (sortPerm ..).symm))

end Sorting

namespace Signer

variable {a b : Signer} {members others : List Signer}

theorem rankTells : rank.Injective := by
  intro a b same
  have power : a.power = b.power := rankPower.1 (congrArg Prod.fst same)
  have address : a.address = b.address := congrArg Prod.snd same
  cases a
  cases b
  cases power
  cases address
  rfl

theorem precedesNot : precedes b a = false ↔
    b.power.toNat < a.power.toNat ∨ a.power = b.power ∧ Key.before b.address a.address = false := by
  rw [← Bool.not_eq_true, precedesIff, ← UInt64.toNat_inj, ← UInt64.toNat_inj, ← Bool.not_eq_true]
  constructor
  · intro notBefore
    by_cases more : b.power.toNat < a.power.toNat
    · exact .inl more
    · have same : b.power.toNat = a.power.toNat := by
        have notLess : ¬ a.power.toNat < b.power.toNat := fun less => notBefore (.inl less)
        omega
      exact .inr ⟨same.symm, fun first => notBefore (.inr ⟨same, first⟩)⟩
  · rintro (more | ⟨same, notFirst⟩) (less | ⟨same', first⟩)
    · omega
    · omega
    · omega
    · exact notFirst first

theorem rankedPermuted (same : members.Perm others) : ranked members = ranked others :=
  Sorting.sortPermuted precedesRank rankTells same

theorem rankedAgain (members : List Signer) : ranked (ranked members) = ranked members :=
  rankedPermuted (Sorting.sortPerm ..)

end Signer

namespace SignerSet

/-- Members in one order or another make one set with one checkpoint. -/
theorem orderImmaterial (bridge : Word) (set : SignerSet) {others : List Signer} (same : set.members.Perm others) :
    Signer.ranked set.members = Signer.ranked others ∧
    (Signer.ranked set.members).Perm set.members ∧
    ((Signer.ranked set.members).Pairwise fun a b => b.power.toNat < a.power.toNat ∨
      a.power = b.power ∧ Key.before b.address a.address = false) ∧
    Signer.ranked (Signer.ranked set.members) = Signer.ranked set.members ∧
    canonical set = canonical { set with members := others } ∧
    Checkpoint.ofSignerSet bridge set = Checkpoint.ofSignerSet bridge { set with members := others } ∧
    Checkpoint.ofSignerSet bridge set.canonical = Checkpoint.ofSigners bridge set.canonical.nonce
      set.canonical.members set.canonical.rewardAmount set.canonical.rewardToken := by
  have ranking := Signer.rankedPermuted same
  have made : canonical set = canonical { set with members := others } := by
    rw [canonical, ranking]
    rfl
  refine ⟨ranking, Sorting.sortPerm .., ?sorted, Signer.rankedAgain _, made, ?checkpoints, ?stored⟩
  case sorted =>
    exact (Sorting.sortSorted Signer.precedesRank set.members).imp Signer.precedesNot.1
  case checkpoints =>
    rw [Checkpoint.ofSignerSet, made]
    rfl
  case stored =>
    have again : set.canonical.canonical.members = set.canonical.members := Signer.rankedAgain _
    rw [Checkpoint.ofSignerSet, again]

def doubled : SignerSet :=
  ⟨1, 100, [⟨5, .small 2⟩, ⟨7, .small 9⟩, ⟨5, .small 1⟩, ⟨5, .small 2⟩], .zero, .zero⟩

theorem doubledEitherWay : doubled.members.Perm doubled.members.reverse ∧
    Signer.ranked doubled.members = [⟨7, .small 9⟩, ⟨5, .small 1⟩, ⟨5, .small 2⟩, ⟨5, .small 2⟩] ∧
    Signer.ranked doubled.members.reverse = Signer.ranked doubled.members ∧
    ∀ bridge, Checkpoint.ofSignerSet bridge doubled =
      Checkpoint.ofSignerSet bridge { doubled with members := doubled.members.reverse } := by
  have same := (List.reverse_perm doubled.members).symm
  have both (bridge : Word) := orderImmaterial bridge doubled same
  exact ⟨same, by decide, (both (Word.ofNat 0)).1.symm, fun bridge => (both bridge).2.2.2.2.2.1⟩

end SignerSet

end TokenBridge
