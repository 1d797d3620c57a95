import TokenBridge.Proofs.Signing.Canonical
/-!
The signers of now on the scale. Each validator with stake and a bound signer gives one member, whose power is its exact
share of what these validators have together, rounded down; all that rounding takes from the scale is less than one for
each member. Stake without a bound signer counts for nothing, and neither does the order in which stakes are listed.
-/
namespace TokenBridge

namespace Power

variable {whole : Nat}

theorem floorsLow (scale : Nat) (stakes : List Nat) :
    whole * (stakes.map fun stake => stake * scale / whole).sum ≤ stakes.sum * scale := by
  induction stakes with
  | nil => simp
  | cons stake rest ih =>
    have one := Nat.mul_div_le (stake * scale) whole
    simp only [List.map_cons, List.sum_cons, Nat.mul_add, Nat.add_mul]
    omega

theorem floorsHigh (scale : Nat) (positive : 0 < whole) (stakes : List Nat) :
    stakes.sum * scale + stakes.length ≤
      whole * ((stakes.map fun stake => stake * scale / whole).sum + stakes.length) := by
  induction stakes with
  | nil => simp
  | cons stake rest ih =>
    have one := Nat.lt_mul_div_succ (stake * scale) positive
    simp only [List.map_cons, List.sum_cons, List.length_cons, Nat.mul_add, Nat.add_mul, Nat.mul_one] at ih one ⊢
    omega

theorem floorsSum {stakes : List Nat} (scale : Nat) (sum : stakes.sum = whole) (positive : 0 < whole) :
    (stakes.map fun stake => stake * scale / whole).sum ≤ scale ∧
    scale < (stakes.map fun stake => stake * scale / whole).sum + stakes.length := by
  have low : whole * _ ≤ _ := floorsLow scale stakes
  have high := floorsHigh scale positive stakes
  rw [sum] at low high
  have filled : 0 < stakes.length := by
    cases stakes with
    | nil => exact absurd sum (Nat.ne_of_lt positive)
    | cons => exact Nat.succ_pos _
  exact ⟨Nat.le_of_mul_le_mul_left low positive, Nat.lt_of_mul_lt_mul_left (a := whole) (by omega)⟩

end Power

namespace StakeView

variable {view other : StakeView} {s : Store} {v : Account} {stake : UInt64} {a : Address}

def AgreesOn (view other : StakeView) (s : Store) : Prop :=
  ∀ v, s.signerOf.contains v = true → ∀ stake, stake ≠ 0 →
    ((v, stake) ∈ view.staked s ↔ (v, stake) ∈ other.staked s)

theorem boundPerm (distinct : s.signerOf.values.Nodup) (listed : ((view.staked s).map Prod.fst).Nodup)
    (listed' : ((other.staked s).map Prod.fst).Nodup) (agree : view.AgreesOn other s) :
    (other.boundStakes s).Perm (view.boundStakes s) := by
  have once := List.Nodup.of_map Prod.fst (boundApart distinct listed)
  have once' := List.Nodup.of_map Prod.fst (boundApart distinct listed')
  refine (List.perm_ext_iff_of_nodup once' once).2 ?_
  rintro ⟨a, stake⟩
  rw [memBound, memBound]
  refine exists_congr fun v => and_congr_left fun ⟨powered, signs⟩ => ?_
  have bound : s.signerOf.contains v = true := Option.isSome_iff_exists.2 ⟨a, signs⟩
  exact (agree v bound stake powered).symm

theorem signersAgree (same : (other.boundStakes s).Perm (view.boundStakes s)) :
    other.signers s = view.signers s := by
  have totals : other.boundTotal s = view.boundTotal s := by
    have sums := (same.map fun e => e.2.toNat).sum_eq
    rw [boundStakeSum, boundStakeSum] at sums
    refine UInt64.toNat_inj.1 ?_
    rw [boundTotalVal, boundTotalVal, sums]
  rw [signersRanked, signersRanked, totals]
  exact Signer.rankedPermuted (same.map _)

theorem sharePower (fits : view.boundStake s < 2 ^ 64) (backs : view.Backs s v stake a) :
    (Power.scaled stake (view.boundTotal s)).toNat = stake.toNat * Power.maximum / view.boundStake s := by
  have within := stakeWithin backs
  have most := Nat.le_sub_one_of_lt fits
  have total : (view.boundTotal s).toNat = view.boundStake s := by
    rw [boundTotalVal]
    exact Nat.min_eq_left most
  have powered : view.boundTotal s ≠ 0 := fun zero => by
    rw [zero, UInt64.toNat_zero] at total
    exact backs.2.1 (UInt64.toNat_inj.1 (by rw [UInt64.toNat_zero]; omega))
  rw [scaledVal (by omega) powered, total]

theorem powersPerm (fits : view.boundStake s < 2 ^ 64) : ((view.signers s).map fun m => m.power.toNat).Perm
    (((view.boundStakes s).map fun e => e.2.toNat).map fun stake =>
      stake * Power.maximum / view.boundStake s) := by
  refine ((Sorting.sortPerm ..).map _).trans (.of_eq ?_)
  rw [List.map_map, List.map_map]
  refine List.map_congr_left fun e bound => ?_
  obtain ⟨v, backs⟩ := memBound.1 bound
  exact sharePower fits backs

theorem powersSum (fits : view.boundStake s < 2 ^ 64) (filled : view.signers s ≠ []) :
    Power.maximum < ((view.signers s).map fun m => m.power.toNat).sum + (view.signers s).length ∧
    ((view.signers s).map fun m => m.power.toNat).sum ≤ Power.maximum := by
  have powers := powersPerm fits
  have positive : 0 < view.boundStake s := by
    obtain ⟨m, member⟩ := List.exists_mem_of_ne_nil _ filled
    obtain ⟨v, stake, backs, _⟩ := memSigners.1 member
    have nonzero : stake.toNat ≠ 0 := fun zero => backs.2.1 (UInt64.toNat_inj.1 zero)
    have within := stakeWithin backs
    omega
  have count := powers.length_eq
  rw [List.length_map, List.length_map] at count
  obtain ⟨most, least⟩ := Power.floorsSum Power.maximum boundStakeSum positive
  rw [powers.sum_eq, count]
  exact ⟨least, most⟩

/-- There is one member for each validator with stake and a bound signer, and together the members lack less than one
each of the scale. -/
theorem membersNormalised (view : StakeView) (s : Store) (distinct : s.signerOf.values.Nodup)
    (listed : ((view.staked s).map Prod.fst).Nodup) :
    (∀ v stake a, view.Backs s v stake a → ∃! m, m ∈ view.signers s ∧ m.address = a) ∧
    (∀ m ∈ view.signers s, ∃! v, ∃ stake, view.Backs s v stake m.address) ∧
    ((view.signers s).Pairwise fun a b => b.power.toNat < a.power.toNat ∨
      a.power = b.power ∧ Key.before a.address b.address = true) ∧
    (∀ m ∈ view.signers s, m.power.toNat ≤ 2 ^ 32 - 1) ∧
    (view.boundStake s < 2 ^ 64 →
      (∀ v stake a, view.Backs s v stake a → ∀ m ∈ view.signers s, m.address = a →
        m.power.toNat = stake.toNat * (2 ^ 32 - 1) / view.boundStake s) ∧
      (view.signers s ≠ [] →
        2 ^ 32 - 1 < ((view.signers s).map fun m => m.power.toNat).sum + (view.signers s).length ∧
        ((view.signers s).map fun m => m.power.toNat).sum ≤ 2 ^ 32 - 1)) ∧
    ∀ other : StakeView, ((other.staked s).map Prod.fst).Nodup → view.AgreesOn other s →
      other.signers s = view.signers s := by
  have apart := signersDistinct distinct listed
  refine ⟨?each, ?only, ?ordered, fun m => signerScaled, fun fits => ⟨?shares, ?sum⟩, ?agree⟩
  case each =>
    intro v stake a backs
    refine ⟨⟨Power.scaled stake (view.boundTotal s), a⟩, ⟨memSigners.2 ⟨v, stake, backs, rfl⟩, rfl⟩, ?_⟩
    rintro m ⟨member, rfl⟩
    exact List.inj_on_of_nodup_map apart member (memSigners.2 ⟨v, stake, backs, rfl⟩) rfl
  case only =>
    intro m member
    obtain ⟨v, stake, backs, _⟩ := memSigners.1 member
    refine ⟨v, ⟨stake, backs⟩, ?_⟩
    rintro w ⟨_, _, _, signs⟩
    exact SortedMap.valuesTell distinct signs backs.2.2
  case ordered =>
    have again := Signer.rankedStrict apart
    rw [signersRanked, Signer.rankedAgain, ← signersRanked] at again
    exact again.imp Signer.precedesIff.1
  case shares =>
    rintro v stake a backs m member rfl
    have here : (⟨Power.scaled stake (view.boundTotal s), m.address⟩ : Signer) ∈ view.signers s :=
      memSigners.2 ⟨v, stake, backs, rfl⟩
    rw [List.inj_on_of_nodup_map apart member here rfl]
    exact sharePower fits backs
  case sum =>
    intro filled
    exact powersSum fits filled
  case agree =>
    intro other listed' agree
    exact signersAgree (boundPerm distinct listed listed' agree)

def listing (stakes : List (Account × UInt64)) : StakeView where
  total _ := 0
  stakeOf _ _ := 0
  staked _ := stakes

/-- Alpha and beta have the same stake, and delta none; all the rest is with omega, which has no signer. -/
def uneven : StakeView :=
  listing [(⟨"omega"⟩, 18446744073709551615), (⟨"alpha"⟩, 3), (⟨"delta"⟩, 0), (⟨"beta"⟩, 3), (⟨"gamma"⟩, 1)]

def unevenAgain : StakeView := listing [(⟨"gamma"⟩, 1), (⟨"beta"⟩, 3), (⟨"alpha"⟩, 3), (⟨"omega"⟩, 5)]

def unevenStore : Store :=
  { Store.empty with
    signerOf := (((SortedMap.empty.insert ⟨"alpha"⟩ (.small 2)).insert ⟨"beta"⟩ (.small 1)).insert ⟨"gamma"⟩
      (.small 3)).insert ⟨"delta"⟩ (.small 4) }

theorem unevenAgrees : uneven.AgreesOn unevenAgain unevenStore := by
  intro v bound stake powered
  have signed : v ≠ ⟨"omega"⟩ := by
    rintro rfl
    exact absurd bound (by decide)
  grind [uneven, unevenAgain, listing]

theorem unevenNormalised :
    unevenStore.signerOf.values.Nodup ∧ ((uneven.staked unevenStore).map Prod.fst).Nodup ∧
    uneven.boundStake unevenStore = 7 ∧
    uneven.signers unevenStore =
      [⟨1840700269, .small 1⟩, ⟨1840700269, .small 2⟩, ⟨613566756, .small 3⟩] ∧
    2 ^ 32 - 1 < ((uneven.signers unevenStore).map fun m => m.power.toNat).sum +
      (uneven.signers unevenStore).length ∧
    unevenAgain.signers unevenStore = uneven.signers unevenStore := by
  have distinct : unevenStore.signerOf.values.Nodup := by decide
  have listed : ((uneven.staked unevenStore).map Prod.fst).Nodup := by decide
  have whole : uneven.boundStake unevenStore = 7 := by decide
  have filled : uneven.signers unevenStore ≠ [] := by decide
  obtain ⟨-, -, -, -, shares, agree⟩ := membersNormalised uneven unevenStore distinct listed
  have sum := (shares (by rw [whole]; decide)).2 filled
  exact ⟨distinct, listed, whole, by decide, sum.1, agree unevenAgain (by decide) unevenAgrees⟩

end StakeView

end TokenBridge
