import TokenBridge.Proofs.Stakes.Deficit
import Mathlib.Data.List.Find
/-!
When voters decide. Their share reaches the threshold just if three times their stake is at least twice the
total: neither the capped sum nor the rounded scale moves that line. Voters that are told apart have no more
stake than the whole table, so of two groups without a common voter only one decides.
-/
namespace TokenBridge

variable {s t : Store} {voters others : List Account}

theorem Counter.cappedSumVal {α : Type} (stakeOf : α → UInt64) (xs : List α) (start : UInt64) :
    (xs.foldl (fun sum x => cappedAdd sum (stakeOf x)) start).toNat =
      min (start.toNat + (xs.map fun x => (stakeOf x).toNat).sum) largest := by
  have bound := leLargest start
  induction xs generalizing start with
  | nil =>
    simp only [List.foldl_nil, List.map_nil, List.sum_nil, Nat.add_zero]
    exact (Nat.min_eq_left bound).symm
  | cons x rest ih =>
    have first := cappedAddVal start (stakeOf x)
    rw [List.foldl_cons, ih _ (leLargest _), first]
    simp only [List.map_cons, List.sum_cons]
    omega

def StakeView.stakeOfAll (view : StakeView) (s : Store) (voters : List Account) : Nat :=
  (voters.map fun voter => (view.stakeOf s voter).toNat).sum

namespace StakeView

theorem cappedStakes (view : StakeView) (s : Store) (voters : List Account) (start : UInt64) :
    (voters.foldl (fun sum voter => Counter.cappedAdd sum (view.stakeOf s voter)) start).toNat =
      min (start.toNat + view.stakeOfAll s voters) Counter.largest :=
  Counter.cappedSumVal (view.stakeOf s) voters start

theorem smallerVal (m n : UInt64) : (Counter.smaller m n).toNat = min m.toNat n.toNat := by
  unfold Counter.smaller
  split
  · rename_i below
    rw [Nat.blt_eq] at below
    omega
  · rename_i notBelow
    rw [Nat.blt_eq] at notBelow
    omega

theorem scaledVal {stake total : UInt64} (within : stake.toNat ≤ total.toNat) (powered : total ≠ 0) :
    (Power.scaled stake total).toNat = stake.toNat * Power.maximum / total.toNat := by
  rw [Power.scaled, if_neg powered]
  have least : stake.toNat * Power.maximum / total.toNat ≤ Power.maximum := by
    refine Nat.div_le_of_le_mul ?_
    exact Nat.mul_le_mul_right _ within
  exact UInt64.toNat_ofNat_of_lt' (Nat.lt_of_le_of_lt least (by decide))

theorem scaledLe {stake total : UInt64} (within : stake.toNat ≤ total.toNat) :
    (Power.scaled stake total).toNat ≤ Power.maximum := by
  by_cases powered : total = 0
  · rw [Power.scaled, if_pos powered]
    exact Nat.zero_le _
  · rw [scaledVal within powered]
    exact Nat.div_le_of_le_mul (Nat.mul_le_mul_right _ within)

theorem shareVal (view : StakeView) (s : Store) (voters : List Account) {total : UInt64}
    (powered : total ≠ 0) :
    (view.share s voters total).toNat =
      min (view.stakeOfAll s voters) total.toNat * Power.maximum / total.toNat := by
  have sum := view.cappedStakes s voters 0
  have most := smallerVal
    (voters.foldl (fun sum voter => Counter.cappedAdd sum (view.stakeOf s voter)) 0) total
  have bound := Counter.leLargest total
  rw [sum, UInt64.toNat_zero, Nat.zero_add] at most
  rw [share, scaledVal (by omega) powered, most]
  congr 2
  omega

theorem shareDecides (view : StakeView) (s : Store) (voters : List Account) {total : UInt64}
    (powered : total ≠ 0) :
    Power.threshold ≤ (view.share s voters total).toNat ↔
      2 * total.toNat ≤ 3 * view.stakeOfAll s voters := by
  have positive : 0 < total.toNat :=
    Nat.pos_of_ne_zero fun zero => powered (UInt64.toNat_inj.1 zero)
  rw [view.shareVal s voters powered, Nat.le_div_iff_mul_le positive]
  -- The threshold and the scale are 2 and 3 times the same number.
  simp only [Power.threshold, Power.maximum]
  omega

/-- Capped sum, cap at the total and rounded scale come to the exact quotient of the unbounded sum, which fits the scale
and so loses nothing in 64 bits; and the threshold on it is two thirds of the total, exactly. -/
theorem weighedExactly (view : StakeView) (s : Store) (voters : List Account) {total : UInt64}
    (powered : 0 < total) :
    min (view.stakeOfAll s voters) total.toNat * Power.maximum < 2 ^ 128 ∧
    (view.share s voters total).toNat =
      min (view.stakeOfAll s voters) total.toNat * Power.maximum / total.toNat ∧
    (view.share s voters total).toNat ≤ 2 ^ 32 - 1 ∧
    (Power.threshold ≤ (view.share s voters total).toNat ↔
      2 * total.toNat ≤ 3 * (voters.map fun voter => (view.stakeOf s voter).toNat).sum) := by
  have nonzero : total ≠ 0 := fun zero => by
    rw [zero] at powered
    exact absurd powered (by decide)
  have exact := view.shareVal s voters nonzero
  have most : min (view.stakeOfAll s voters) total.toNat * Power.maximum ≤ total.toNat * Power.maximum :=
    Nat.mul_le_mul_right _ (Nat.min_le_right ..)
  refine ⟨?product, exact, ?scale, view.shareDecides s voters nonzero⟩
  case product =>
    have bound := total.toNat_lt
    refine Nat.lt_of_le_of_lt most ?_
    rw [Power.maximum]
    omega
  case scale =>
    rw [exact]
    exact Nat.div_le_of_le_mul most

/-- Alpha's stake is one short of two thirds of the largest total, beta's is one, and gamma's is all there is. -/
def brinkStakes : StakeView where
  total _ := 18446744073709551615
  stakeOf _ voter :=
    if voter.name = "alpha" then 12297829382473034409
    else if voter.name = "beta" then 1
    else 18446744073709551615
  staked _ := []

theorem brinkWeighed :
    (0 : UInt64) < 18446744073709551615 ∧
    (brinkStakes.share .empty [⟨"alpha"⟩] 18446744073709551615).toNat < Power.threshold ∧
    Power.threshold ≤ (brinkStakes.share .empty [⟨"alpha"⟩, ⟨"beta"⟩] 18446744073709551615).toNat ∧
    (brinkStakes.share .empty [⟨"alpha"⟩, ⟨"gamma"⟩, ⟨"gamma"⟩] 18446744073709551615).toNat ≤ 2 ^ 32 - 1 := by
  have powered : (0 : UInt64) < 18446744073709551615 := by decide
  have weighed (voters) := weighedExactly brinkStakes .empty voters powered
  refine ⟨powered, ?short, ?level, (weighed _).2.2.1⟩
  case short =>
    rw [← Nat.not_le, (weighed _).2.2.2]
    decide
  case level =>
    rw [(weighed _).2.2.2]
    decide

theorem stakeOfAllAppend (view : StakeView) (s : Store) (voters others : List Account) :
    view.stakeOfAll s (voters ++ others) = view.stakeOfAll s voters + view.stakeOfAll s others := by
  simp [stakeOfAll]

end StakeView

theorem tableStakes {voters : List Account} (distinct : voters.Nodup)
    (powers : SortedMap Account UInt64) :
    (voters.map fun voter => (powers.getD voter 0).toNat).sum ≤
      (powers.values.map UInt64.toNat).sum := by
  induction voters generalizing powers with
  | nil => exact Nat.zero_le _
  | cons voter rest ih =>
    obtain ⟨apart, others⟩ := List.nodup_cons.1 distinct
    have erased := ih others (powers.erase voter)
    have same : (rest.map fun other => ((powers.erase voter).getD other 0).toNat) =
        rest.map fun other => (powers.getD other 0).toNat := by
      refine List.map_congr_left fun other inside => ?_
      have different : voter ≠ other := fun same => apart (same ▸ inside)
      simp only [SortedMap.getD, SortedMap.getEraseOther powers different]
    have split := Store.stakeSplit { Store.empty with powers } voter
    rw [List.map_cons, List.sum_cons, ← same]
    simp only [Store.stake, Store.stakeOfOthers] at split
    omega

theorem Store.stakeOfDistinct (s : Store) (distinct : voters.Nodup) :
    StakeView.stored.stakeOfAll s voters ≤ s.stake :=
  tableStakes distinct s.powers

theorem Store.oneDecides (powered : 0 < s.stake) (distinct : (voters ++ others).Nodup)
    (first : 2 * s.stake ≤ 3 * StakeView.stored.stakeOfAll s voters) :
    ¬ 2 * s.stake ≤ 3 * StakeView.stored.stakeOfAll s others := by
  have together := s.stakeOfDistinct distinct
  rw [StakeView.stakeOfAllAppend] at together
  omega

end TokenBridge
