import TokenBridge.Proofs.Signing.Canonical
import Mathlib.Algebra.Order.BigOperators.Group.Finset
import Mathlib.Data.Nat.Dist
/-!
How far two sets are apart. The table that a drift is read off loses a member at each step, and what is left at the end
has no counterpart; taken together these are the changes of power, address by address. So a drift is an exact
distance rounded down to the atomics of a decimal, and a threshold on it is one on the distance.
-/
namespace TokenBridge.SignerSet

variable {members others : List Signer} {set set' far : SignerSet} {a : Address} {m : Signer}

def powerIn (members : List Signer) (a : Address) : Nat :=
  ((members.find? fun m => m.address = a).map fun m => m.power.toNat).getD 0

def powerOf (set : SignerSet) (a : Address) : Nat := powerIn set.members a

def addresses (set : SignerSet) : Finset Address := (set.members.map Signer.address).toFinset

def distance (set set' : SignerSet) : Nat :=
  ∑ a ∈ set.addresses ∪ set'.addresses, Nat.dist (set.powerOf a) (set'.powerOf a)

theorem keyedSum {α : Type} {xs : List α} {key : α → Address} {value : α → Nat} {look : Address → Nat}
    {keys : Finset Address} (distinct : (xs.map key).Nodup) (inside : ∀ x ∈ xs, key x ∈ keys)
    (here : ∀ x ∈ xs, look (key x) = value x) (outside : ∀ a, a ∉ xs.map key → look a = 0) :
    (xs.map value).sum = ∑ a ∈ keys, look a := by
  have part : (xs.map key).toFinset ⊆ keys := by
    intro a listed
    obtain ⟨x, member, rfl⟩ := List.mem_map.1 (List.mem_toFinset.1 listed)
    exact inside x member
  calc (xs.map value).sum = (xs.map fun x => look (key x)).sum := by rw [List.map_congr_left here]
    _ = ((xs.map key).map look).sum := by
        rw [List.map_map]
        rfl
    _ = ∑ a ∈ (xs.map key).toFinset, look a := (List.sum_toFinset look distinct).symm
    _ = ∑ a ∈ keys, look a :=
        Finset.sum_subset part fun a _ unlisted => outside a (mt List.mem_toFinset.2 unlisted)

theorem powerAbsent (absent : a ∉ members.map Signer.address) : powerIn members a = 0 := by
  have none : members.find? (fun m => m.address = a) = none := by
    refine List.find?_eq_none.2 fun m member => ?_
    have different : m.address ≠ a := fun same => absent (List.mem_map.2 ⟨m, member, same⟩)
    simpa using different
  rw [powerIn, none]
  rfl

theorem powerOther {b : Address} (different : m.address ≠ b) : powerIn (m :: members) b = powerIn members b := by
  simp [powerIn, different]

theorem powerMember (distinct : (members.map Signer.address).Nodup) (member : m ∈ members) :
    powerIn members m.address = m.power.toNat := by
  induction members with
  | nil => cases member
  | cons first rest ih =>
    obtain ⟨apart, others⟩ := List.nodup_cons.1 distinct
    rcases List.mem_cons.1 member with rfl | inside
    · simp [powerIn]
    · have different : first.address ≠ m.address := fun same => apart (same ▸ List.mem_map_of_mem inside)
      rw [powerOther different, ih others inside]

theorem powerPerm (distinct : (members.map Signer.address).Nodup) (same : members.Perm others) (a : Address) :
    powerIn members a = powerIn others a := by
  have addresses := same.map Signer.address
  by_cases listed : a ∈ members.map Signer.address
  · obtain ⟨m, member, rfl⟩ := List.mem_map.1 listed
    rw [powerMember distinct member, powerMember (addresses.nodup_iff.1 distinct) (same.mem_iff.1 member)]
  · rw [powerAbsent listed, powerAbsent (mt addresses.mem_iff.2 listed)]

theorem powersPower (distinct : (set.members.map Signer.address).Nodup) (a : Address) :
    (set.powers.getD a 0).toNat = set.powerOf a := by
  cases found : set.powers.get? a with
  | none =>
    have absent : a ∉ set.members.map Signer.address := by
      intro listed
      obtain ⟨m, member, rfl⟩ := List.mem_map.1 listed
      rw [(powersGet distinct).2 member] at found
      cases found
    rw [SortedMap.getD, found, powerOf, powerAbsent absent]
    rfl
  | some p =>
    have member := (powersGet distinct).1 found
    rw [SortedMap.getD, found, powerOf, powerMember distinct member]
    rfl

theorem tableSum {table : SortedMap Address UInt64} {keys : Finset Address} (inside : ∀ a ∈ table.keys, a ∈ keys) :
    (table.values.map UInt64.toNat).sum = ∑ a ∈ keys, (table.getD a 0).toNat := by
  have distinct : (table.entries.map Prod.fst).Nodup := table.keysNodup
  have values : table.values.map UInt64.toNat = table.entries.map fun e => e.2.toNat := by
    rw [SortedMap.values, List.map_map]
    rfl
  rw [values]
  refine keyedSum distinct (fun e here => inside e.1 (List.mem_map_of_mem here)) ?here ?outside
  case here =>
    intro e here
    rw [SortedMap.getD, SortedMap.getIff.2 here]
    rfl
  case outside =>
    intro a unlisted
    have absent : table.get? a = none :=
      Option.eq_none_iff_forall_ne_some.2 fun p found => unlisted (SortedMap.memKeys.2 ⟨p, found⟩)
    rw [SortedMap.getD, absent]
    rfl

theorem movementSum {table : SortedMap Address UInt64} {keys : Finset Address}
    (distinct : (members.map Signer.address).Nodup) (listed : ∀ a ∈ table.keys, a ∈ keys)
    (inside : ∀ m ∈ members, m.address ∈ keys) :
    movement table members = ∑ a ∈ keys, Nat.dist (table.getD a 0).toNat (powerIn members a) := by
  -- Each member takes its address off the table and off the keys; what stays at the end is matched with nothing.
  induction members generalizing table keys with
  | nil =>
    show (table.values.map UInt64.toNat).sum = _
    rw [tableSum listed]
    refine Finset.sum_congr rfl fun a _ => ?_
    exact (Nat.dist_zero_right _).symm
  | cons m rest ih =>
    obtain ⟨apart, others⟩ := List.nodup_cons.1 distinct
    have listed' : ∀ a ∈ (table.erase m.address).keys, a ∈ keys.erase m.address := by
      intro a listing
      obtain ⟨p, found⟩ := SortedMap.memKeys.1 listing
      obtain ⟨different, found⟩ := SortedMap.getEraseSome.1 found
      exact Finset.mem_erase.2 ⟨different.symm, listed a (SortedMap.memKeys.2 ⟨p, found⟩)⟩
    have inside' : ∀ n ∈ rest, n.address ∈ keys.erase m.address := by
      intro n member
      have different : n.address ≠ m.address := fun same => apart (same ▸ List.mem_map_of_mem member)
      exact Finset.mem_erase.2 ⟨different, inside n (List.mem_cons_of_mem _ member)⟩
    have rests : ∑ a ∈ keys.erase m.address,
          Nat.dist ((table.erase m.address).getD a 0).toNat (powerIn rest a) =
        ∑ a ∈ keys.erase m.address, Nat.dist (table.getD a 0).toNat (powerIn (m :: rest) a) := by
      refine Finset.sum_congr rfl fun a here => ?_
      have different := (Finset.mem_erase.1 here).1.symm
      rw [SortedMap.getD, SortedMap.getEraseOther _ different, powerOther different, SortedMap.getD]
    have first : Counter.distance (table.getD m.address 0) m.power =
        Nat.dist (table.getD m.address 0).toNat (powerIn (m :: rest) m.address) := by
      rw [powerMember distinct (List.mem_cons_self ..)]
      rfl
    show Counter.distance (table.getD m.address 0) m.power + movement (table.erase m.address) rest = _
    rw [ih others listed' inside', rests, first]
    exact Finset.add_sum_erase keys (fun a => Nat.dist (table.getD a 0).toNat (powerIn (m :: rest) a))
      (inside m (List.mem_cons_self ..))

theorem memAddresses : a ∈ set.addresses ↔ a ∈ set.members.map Signer.address := List.mem_toFinset

theorem distanceOver {keys : Finset Address} (within : set.addresses ∪ set'.addresses ⊆ keys) :
    set.distance set' = ∑ a ∈ keys, Nat.dist (set.powerOf a) (set'.powerOf a) := by
  refine Finset.sum_subset within fun a _ outside => ?_
  rw [Finset.mem_union, not_or, memAddresses, memAddresses] at outside
  rw [powerOf, powerOf, powerAbsent outside.1, powerAbsent outside.2, Nat.dist_self]

theorem distanceComm (set set' : SignerSet) : set'.distance set = set.distance set' := by
  rw [distance, distance, Finset.union_comm]
  exact Finset.sum_congr rfl fun a _ => Nat.dist_comm ..

theorem distanceTriangle (set set' far : SignerSet) :
    set.distance far ≤ set.distance set' + set'.distance far := by
  obtain ⟨keys, first, second, third⟩ : ∃ keys, set.addresses ⊆ keys ∧ set'.addresses ⊆ keys ∧
      far.addresses ⊆ keys :=
    ⟨(set.addresses ∪ set'.addresses) ∪ far.addresses,
      Finset.subset_union_left.trans Finset.subset_union_left,
      Finset.subset_union_right.trans Finset.subset_union_left, Finset.subset_union_right⟩
  rw [distanceOver (Finset.union_subset first third), distanceOver (Finset.union_subset first second),
    distanceOver (Finset.union_subset second third), ← Finset.sum_add_distrib]
  exact Finset.sum_le_sum fun a _ => Nat.dist.triangle_inequality ..

theorem distanceZero : set.distance set' = 0 ↔ ∀ a, set.powerOf a = set'.powerOf a := by
  constructor
  · intro none a
    have here : set.addresses ∪ set'.addresses ⊆ insert a (set.addresses ∪ set'.addresses) :=
      Finset.subset_insert ..
    rw [distanceOver here, Finset.sum_eq_zero_iff] at none
    exact Nat.eq_of_dist_eq_zero (none a (Finset.mem_insert_self ..))
  · intro same
    refine Finset.sum_eq_zero fun a _ => ?_
    rw [same a, Nat.dist_self]

theorem distancePerm {other other' : SignerSet} (distinct : (set.members.map Signer.address).Nodup)
    (distinct' : (set'.members.map Signer.address).Nodup) (same : set.members.Perm other.members)
    (same' : set'.members.Perm other'.members) : other.distance other' = set.distance set' := by
  have addresses : other.addresses ∪ other'.addresses = set.addresses ∪ set'.addresses := by
    ext a
    rw [Finset.mem_union, Finset.mem_union, memAddresses, memAddresses, memAddresses, memAddresses,
      (same.map Signer.address).mem_iff, (same'.map Signer.address).mem_iff]
  rw [distance, distance, addresses]
  refine Finset.sum_congr rfl fun a _ => ?_
  rw [powerOf, powerOf, powerOf, powerOf, powerPerm distinct same, powerPerm distinct' same']

def total (set : SignerSet) : Nat := (set.members.map fun m => m.power.toNat).sum

theorem totalSum {keys : Finset Address} (distinct : (set.members.map Signer.address).Nodup)
    (within : set.addresses ⊆ keys) : set.total = ∑ a ∈ keys, set.powerOf a :=
  keyedSum distinct (fun _ member => within (memAddresses.2 (List.mem_map_of_mem member)))
    (fun _ => powerMember distinct) fun _ => powerAbsent

theorem distanceMost (distinct : (set.members.map Signer.address).Nodup)
    (distinct' : (set'.members.map Signer.address).Nodup) : set.distance set' ≤ set.total + set'.total := by
  rw [totalSum distinct Finset.subset_union_left, totalSum distinct' Finset.subset_union_right,
    ← Finset.sum_add_distrib, distance]
  refine Finset.sum_le_sum fun a _ => ?_
  rw [Nat.dist]
  omega

theorem movementDistance (distinct : (set.members.map Signer.address).Nodup)
    (distinct' : (set'.members.map Signer.address).Nodup) :
    movement set.powers set'.members = set.distance set' := by
  have listed : ∀ a ∈ set.powers.keys, a ∈ set.addresses ∪ set'.addresses := by
    intro a listing
    obtain ⟨p, found⟩ := SortedMap.memKeys.1 listing
    have member := List.mem_map_of_mem (f := Signer.address) ((powersGet distinct).1 found)
    exact Finset.mem_union_left _ (memAddresses.2 member)
  have inside : ∀ m ∈ set'.members, m.address ∈ set.addresses ∪ set'.addresses := fun m member =>
    Finset.mem_union_right _ (memAddresses.2 (List.mem_map_of_mem member))
  rw [movementSum distinct' listed inside]
  refine Finset.sum_congr rfl fun a _ => ?_
  rw [powersPower distinct, powerOf, powerOf]

theorem driftIff (distinct : (set.members.map Signer.address).Nodup)
    (distinct' : (set'.members.map Signer.address).Nodup) {d : Decimal} :
    set.drift? set' = some d ↔ d.atomics = 10 ^ 18 * set.distance set' / (2 ^ 32 - 1) := by
  have bound := d.bound
  rw [drift?, movementDistance distinct distinct', Decimal.ofRatio?, Decimal.ofAtomics?, Decimal.scale,
    Power.maximum, Nat.mul_comm]
  split
  · rename_i fits
    rw [Option.some.injEq]
    exact ⟨fun same => same ▸ rfl, fun same => Decimal.ext same.symm⟩
  · rename_i large
    constructor
    · intro drift
      cases drift
    · intro same
      exact absurd (same ▸ bound) large

theorem driftReads (distinct : (set.members.map Signer.address).Nodup)
    (distinct' : (set'.members.map Signer.address).Nodup) :
    (set.drift? set').isSome ↔ 10 ^ 18 * set.distance set' / (2 ^ 32 - 1) < 2 ^ 128 := by
  rw [Option.isSome_iff_exists]
  constructor
  · rintro ⟨d, drift⟩
    rw [← (driftIff distinct distinct').1 drift]
    exact d.bound
  · intro fits
    exact ⟨⟨_, fits⟩, (driftIff distinct distinct').2 rfl⟩

theorem driftSame {other other' : SignerSet} (distinct : (set.members.map Signer.address).Nodup)
    (distinct' : (set'.members.map Signer.address).Nodup) (apart : (other.members.map Signer.address).Nodup)
    (apart' : (other'.members.map Signer.address).Nodup)
    (same : other.distance other' = set.distance set') : other.drift? other' = set.drift? set' := by
  refine Option.ext fun d => ?_
  rw [driftIff apart apart', driftIff distinct distinct', same]

/-- A drift is the distance in parts of the scale, rounded down, and comparing it with a threshold compares the
distance exactly. -/
theorem driftMeasures (distinct : (set.members.map Signer.address).Nodup)
    (distinct' : (set'.members.map Signer.address).Nodup) (distinctFar : (far.members.map Signer.address).Nodup) :
    (∀ d, set.drift? set' = some d ↔ d.atomics = 10 ^ 18 * set.distance set' / (2 ^ 32 - 1)) ∧
    ((set.drift? set').isSome ↔ 10 ^ 18 * set.distance set' / (2 ^ 32 - 1) < 2 ^ 128) ∧
    (∀ other other' : SignerSet, set.members.Perm other.members → set'.members.Perm other'.members →
      other.drift? other' = set.drift? set') ∧
    set'.drift? set = set.drift? set' ∧
    ((∃ d, set.drift? set' = some d ∧ d.atomics = 0) ↔ ∀ a, set.powerOf a = set'.powerOf a) ∧
    (∀ whole first second, set.drift? far = some whole → set.drift? set' = some first →
      set'.drift? far = some second → whole.atomics ≤ first.atomics + second.atomics + 1) ∧
    (∀ d threshold, set.drift? set' = some d →
      (d.below threshold = false ↔ threshold.atomics * (2 ^ 32 - 1) ≤ 10 ^ 18 * set.distance set')) ∧
    (set.total ≤ 2 ^ 32 - 1 → set'.total ≤ 2 ^ 32 - 1 →
      ∃ d, set.drift? set' = some d ∧ d.atomics ≤ 2 * 10 ^ 18) := by
  have exact (d) := driftIff distinct distinct' (d := d)
  refine ⟨exact, driftReads distinct distinct', ?order, ?comm, ?zero, ?triangle, ?threshold, ?most⟩
  case order =>
    intro other other' same same'
    refine driftSame distinct distinct' ?_ ?_ (distancePerm distinct distinct' same same')
    · exact (same.map Signer.address).nodup_iff.1 distinct
    · exact (same'.map Signer.address).nodup_iff.1 distinct'
  case comm =>
    exact driftSame distinct distinct' distinct' distinct (distanceComm set set')
  case zero =>
    rw [← distanceZero]
    constructor
    · rintro ⟨d, drift, none⟩
      rw [exact] at drift
      omega
    · intro none
      refine ⟨⟨0, by decide⟩, ?_, rfl⟩
      rw [exact, none, Nat.mul_zero, Nat.zero_div]
  case triangle =>
    intro whole first second drift drift' drift''
    rw [driftIff distinct distinctFar] at drift
    rw [exact] at drift'
    rw [driftIff distinct' distinctFar] at drift''
    have detour := distanceTriangle set set' far
    omega
  case threshold =>
    intro d threshold drift
    rw [exact] at drift
    rw [Decimal.below, ← Bool.not_eq_true, Nat.blt_eq]
    omega
  case most =>
    intro scaled scaled'
    have most := distanceMost distinct distinct'
    have bounded : 10 ^ 18 * set.distance set' / (2 ^ 32 - 1) ≤ 2 * 10 ^ 18 := by omega
    exact ⟨⟨_, Nat.lt_of_le_of_lt bounded (by decide)⟩, (exact _).2 rfl, bounded⟩

def fifthBefore : SignerSet :=
  ⟨1, 100, [⟨2147483646, .small 3⟩, ⟨1073741823, .small 1⟩, ⟨1073741823, .small 2⟩], .zero, .zero⟩

def fifthAfter : SignerSet :=
  ⟨2, 200, [⟨2576980377, .small 3⟩, ⟨858993459, .small 1⟩, ⟨858993459, .small 2⟩], .zero, .zero⟩

def elsewhere : SignerSet := ⟨3, 300, [⟨4294967295, .small 4⟩], .zero, .zero⟩

theorem fifthMeasured :
    (fifthBefore.members.map Signer.address).Nodup ∧ (fifthAfter.members.map Signer.address).Nodup ∧
    (elsewhere.members.map Signer.address).Nodup ∧
    ∃ d, fifthBefore.drift? fifthAfter = some d ∧ fifthAfter.drift? fifthBefore = some d ∧
      d.atomics = 200000000000000000 ∧ d.below (.percent 20) = false ∧ d.below (.percent 21) = true ∧
      ∀ whole second, fifthBefore.drift? elsewhere = some whole → fifthAfter.drift? elsewhere = some second →
        whole.atomics ≤ d.atomics + second.atomics + 1 := by
  have distinct : (fifthBefore.members.map Signer.address).Nodup := by decide
  have distinct' : (fifthAfter.members.map Signer.address).Nodup := by decide
  have distinctFar : (elsewhere.members.map Signer.address).Nodup := by decide
  obtain ⟨exact, -, -, comm, -, triangle, threshold, most⟩ := driftMeasures distinct distinct' distinctFar
  obtain ⟨d, drift, _⟩ := most (by decide) (by decide)
  have apart : fifthBefore.distance fifthAfter = 858993459 := by decide
  have atomics := (exact d).1 drift
  have compared (t) := threshold d t drift
  rw [apart] at atomics compared
  refine ⟨distinct, distinct', distinctFar, d, drift, comm.trans drift, atomics, ?reached, ?missed, ?round⟩
  case reached =>
    rw [compared]
    decide
  case missed =>
    rw [← Bool.not_eq_false, compared]
    decide
  case round =>
    intro whole second drift' drift''
    exact triangle whole d second drift' drift drift''

end TokenBridge.SignerSet
