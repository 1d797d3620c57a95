import TokenBridge.Directory
import TokenBridge.Proofs.SortedMap.Listing
import Mathlib.Algebra.BigOperators.Group.List.Basic
import Mathlib.Algebra.GroupWithZero.Nat
import Mathlib.Data.List.Induction
/-!
The total stake against the sum of the table. The total is kept by a capped difference and a capped sum, so once
the sum has passed the largest number the total may stay below it. The deficit is what it lacks.
-/
namespace TokenBridge

variable {s : Store} {validator : Account} {power : UInt64}

abbrev Counter.largest : Nat := UInt64.size - 1

theorem Counter.leLargest (n : UInt64) : n.toNat ≤ largest := Nat.le_pred_of_lt n.toNat_lt

theorem Counter.cappedAddVal (m n : UInt64) : (cappedAdd m n).toNat = min (m.toNat + n.toNat) largest :=
  UInt64.toNat_ofNat_of_lt' (by
    have bound : min (m.toNat + n.toNat) largest ≤ largest := Nat.min_le_right ..
    have size : largest < UInt64.size := by decide
    omega)

theorem Counter.cappedSubVal (m n : UInt64) : (cappedSub m n).toNat = m.toNat - n.toNat :=
  UInt64.toNat_ofNat_of_lt' (Nat.lt_of_le_of_lt (Nat.sub_le ..) m.toNat_lt)

namespace Store

def stake (s : Store) : Nat := (s.powers.values.map UInt64.toNat).sum

def stakeOfOthers (s : Store) (validator : Account) : Nat :=
  ((s.powers.erase validator).values.map UInt64.toNat).sum

def deficit (s : Store) : Nat := s.stake - s.totalPower.toNat

theorem stakeSplit (s : Store) (validator : Account) :
    s.stake = (s.powers.getD validator 0).toNat + s.stakeOfOthers validator := by
  unfold stake stakeOfOthers SortedMap.getD
  cases found : s.powers.get? validator with
  | none =>
    rw [SortedMap.eraseAbsent found]
    exact (Nat.zero_add _).symm
  | some power =>
    have sums := ((SortedMap.valuesErase found).map UInt64.toNat).sum_eq
    rw [List.map_cons, List.sum_cons] at sums
    exact sums

theorem setPowerStake (s : Store) (validator : Account) (power : UInt64) :
    (s.setPower validator power).stake = power.toNat + s.stakeOfOthers validator := by
  unfold stake stakeOfOthers setPower
  dsimp only
  split
  · rename_i none
    subst none
    exact (Nat.zero_add _).symm
  · have sums := ((SortedMap.valuesReplace s.powers validator power).map UInt64.toNat).sum_eq
    rw [List.map_cons, List.sum_cons] at sums
    exact sums

theorem setPowerTotal (s : Store) (validator : Account) (power : UInt64) :
    (s.setPower validator power).totalPower.toNat =
      min (s.totalPower.toNat - (s.powers.getD validator 0).toNat + power.toNat)
        Counter.largest := by
  unfold setPower
  dsimp only
  rw [Counter.cappedAddVal, Counter.cappedSubVal]

theorem setPowerDeficit (within : s.totalPower.toNat ≤ s.stake) (validator : Account)
    (power : UInt64) :
    (s.setPower validator power).totalPower.toNat ≤ (s.setPower validator power).stake ∧
      (s.setPower validator power).deficit =
        max (min s.deficit (s.stakeOfOthers validator))
          ((s.setPower validator power).stake - Counter.largest) := by
  have split := s.stakeSplit validator
  have sum := s.setPowerStake validator power
  have total := s.setPowerTotal validator power
  unfold deficit
  omega

end Store

def reported (reports : List StakeReport) : Store :=
  reports.foldl (fun s r => s.setPower ⟨r.validator⟩ r.power) .empty

theorem reportedConcat (reports : List StakeReport) (r : StakeReport) :
    reported (reports ++ [r]) = (reported reports).setPower ⟨r.validator⟩ r.power := by
  simp [reported]

theorem reportedWithin (reports : List StakeReport) :
    (reported reports).totalPower.toNat ≤ (reported reports).stake := by
  induction reports using List.reverseRecOn with
  | nil => exact Nat.le_refl 0
  | append_singleton past r ih =>
    rw [reportedConcat]
    exact (Store.setPowerDeficit ih ⟨r.validator⟩ r.power).1

/-- Whatever the sum once exceeded the largest total by is down to `left`: the sum itself at that point, or the
stake of the others at a later report. -/
def MadeUp (reports : List StakeReport) (left : Nat) : Prop :=
  ∀ i ≤ reports.length, (reported (reports.take i)).stake - Counter.largest ≤ left ∨
    ∃ k r, i ≤ k ∧ reports[k]? = some r ∧
      (reported (reports.take k)).stakeOfOthers ⟨r.validator⟩ ≤ left

theorem madeUpNil (left : Nat) : MadeUp [] left := by
  intro i _
  rw [List.take_nil]
  exact .inl (Nat.zero_le _)

theorem madeUpConcat (past : List StakeReport) (r : StakeReport) (left : Nat) :
    MadeUp (past ++ [r]) left ↔
      (MadeUp past left ∨ (reported past).stakeOfOthers ⟨r.validator⟩ ≤ left) ∧
        (reported (past ++ [r])).stake - Counter.largest ≤ left := by
  have earlier {i : Nat} (h : i ≤ past.length) : (past ++ [r]).take i = past.take i :=
    List.take_append_of_le_length h
  constructor
  · intro madeUp
    constructor
    · by_cases others : (reported past).stakeOfOthers ⟨r.validator⟩ ≤ left
      · exact .inr others
      · refine .inl fun i early => ?_
        rcases madeUp i (by rw [List.length_append]; omega) with low | ⟨k, q, after, found, low⟩
        · rw [earlier early] at low
          exact .inl low
        · by_cases old : k < past.length
          · rw [List.getElem?_append_left old] at found
            rw [earlier (Nat.le_of_lt old)] at low
            exact .inr ⟨k, q, after, found, low⟩
          · have last : k = past.length := by
              have bound := (List.getElem?_eq_some_iff.1 found).1
              rw [List.length_append, List.length_singleton] at bound
              omega
            subst last
            rw [earlier (Nat.le_refl _), List.take_length] at low
            rw [List.getElem?_concat_length, Option.some.injEq] at found
            rw [found] at others
            exact absurd low others
    · have whole : (past ++ [r]).take (past ++ [r]).length = past ++ [r] := List.take_length
      rcases madeUp _ (Nat.le_refl _) with low | ⟨k, q, after, found, _⟩
      · rw [whole] at low
        exact low
      · have bound := (List.getElem?_eq_some_iff.1 found).1
        omega
  · rintro ⟨before, last⟩ i bound
    rw [List.length_append, List.length_singleton] at bound
    by_cases early : i ≤ past.length
    · rcases before with madeUp | others
      · rcases madeUp i early with low | ⟨k, q, after, found, low⟩
        · rw [earlier early]
          exact .inl low
        · have old := (List.getElem?_eq_some_iff.1 found).1
          refine .inr ⟨k, q, after, ?_, ?_⟩
          · rw [List.getElem?_append_left old]
            exact found
          · rw [earlier (Nat.le_of_lt old)]
            exact low
      · refine .inr ⟨past.length, r, early, List.getElem?_concat_length .., ?_⟩
        rw [earlier (Nat.le_refl _), List.take_length]
        exact others
    · have whole : i = (past ++ [r]).length := by
        rw [List.length_append, List.length_singleton]
        omega
      rw [whole, List.take_length]
      exact .inl last

theorem deficitIff (reports : List StakeReport) (left : Nat) :
    (reported reports).deficit ≤ left ↔ MadeUp reports left := by
  induction reports using List.reverseRecOn with
  | nil => exact ⟨fun _ => madeUpNil left, fun _ => Nat.zero_le _⟩
  | append_singleton past r ih =>
    -- A report cuts the deficit to the stake of the others, then lifts it to what the new sum exceeds the cap by.
    have step := (Store.setPowerDeficit (reportedWithin past) ⟨r.validator⟩ r.power).2
    rw [← reportedConcat] at step
    rw [madeUpConcat, ← ih, step, Nat.max_le]
    have least : min (reported past).deficit ((reported past).stakeOfOthers ⟨r.validator⟩) ≤ left ↔
        (reported past).deficit ≤ left ∨
          (reported past).stakeOfOthers ⟨r.validator⟩ ≤ left := by omega
    rw [least]

theorem reportedInSync (reports : List StakeReport) :
    (reported reports).totalPower.toNat = min (reported reports).stake Counter.largest ↔
      MadeUp reports ((reported reports).stake - Counter.largest) := by
  rw [← deficitIff]
  have within := reportedWithin reports
  have bound := Counter.leLargest (reported reports).totalPower
  unfold Store.deficit
  omega

end TokenBridge
