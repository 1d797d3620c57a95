import TokenBridge.SortedMap.Lemmas
import Mathlib.Data.List.Sort
/-!
The values of a table as a list without order: what entering and erasing a key adds to them and takes from
them.
-/
namespace TokenBridge.SortedMap

variable {κ α : Type} [Key κ] {m : SortedMap κ α} {k : κ} {v : α}

theorem entriesNodup (m : SortedMap κ α) : m.entries.Nodup := by
  refine m.ascending.imp ?_
  intro a b before same
  rw [same, Key.irrefl] at before
  cases before

theorem keysNodup (m : SortedMap κ α) : m.keys.Nodup := by
  refine List.pairwise_map.2 (m.ascending.imp ?_)
  intro a b before same
  rw [same, Key.irrefl] at before
  cases before

theorem memValues : v ∈ m.values ↔ ∃ k, m.get? k = some v := by
  simp only [values, List.mem_map, getIff]
  constructor
  · rintro ⟨⟨k, _⟩, here, rfl⟩
    exact ⟨k, here⟩
  · rintro ⟨k, here⟩
    exact ⟨(k, v), here, rfl⟩

theorem memKeys : k ∈ m.keys ↔ ∃ v, m.get? k = some v := by
  simp only [keys, List.mem_map, getIff]
  constructor
  · rintro ⟨⟨_, v⟩, here, rfl⟩
    exact ⟨v, here⟩
  · rintro ⟨v, here⟩
    exact ⟨(k, v), here, rfl⟩

theorem valuesTell (distinct : m.values.Nodup) {k' : κ} (here : m.get? k = some v) (there : m.get? k' = some v) :
    k = k' :=
  congrArg Prod.fst (List.inj_on_of_nodup_map distinct (getIff.1 here) (getIff.1 there) rfl)

theorem valuesDistinct (tell : ∀ k k' v, m.get? k = some v → m.get? k' = some v → k = k') : m.values.Nodup := by
  refine List.Nodup.map_on ?_ (entriesNodup m)
  rintro ⟨k, v⟩ here ⟨k', _⟩ there rfl
  rw [tell k k' v (getIff.2 here) (getIff.2 there)]

theorem entriesInsert (fresh : m.get? k = none) : (m.insert k v).entries.Perm ((k, v) :: m.entries) := by
  have absent : (k, v) ∉ m.entries := getNoneIff.1 fresh v
  refine (List.perm_ext_iff_of_nodup (entriesNodup _)
    (List.nodup_cons.2 ⟨absent, entriesNodup m⟩)).2 ?_
  rintro ⟨k', v'⟩
  rw [← getIff, List.mem_cons, ← getIff]
  by_cases same : k = k'
  · subst same
    rw [getInsertSelf, fresh]
    simp [eq_comm]
  · rw [getInsertOther m v same]
    simp [Ne.symm same]

theorem entriesErase (here : m.get? k = some v) : m.entries.Perm ((k, v) :: (m.erase k).entries) := by
  have absent : (k, v) ∉ (m.erase k).entries := getNoneIff.1 (getEraseSelf m k) v
  refine (List.perm_ext_iff_of_nodup (entriesNodup m)
    (List.nodup_cons.2 ⟨absent, entriesNodup _⟩)).2 ?_
  rintro ⟨k', v'⟩
  rw [← getIff, List.mem_cons, ← getIff]
  by_cases same : k = k'
  · subst same
    rw [getEraseSelf, here]
    simp [eq_comm]
  · rw [getEraseOther m same]
    simp [Ne.symm same]

theorem valuesInsert (fresh : m.get? k = none) : (m.insert k v).values.Perm (v :: m.values) :=
  (entriesInsert fresh).map Prod.snd

theorem valuesErase (here : m.get? k = some v) : m.values.Perm (v :: (m.erase k).values) :=
  (entriesErase here).map Prod.snd

theorem insertErase (m : SortedMap κ α) (k : κ) (v : α) : (m.erase k).insert k v = m.insert k v := by
  refine extGet fun k' => ?_
  by_cases same : k = k'
  · subst same
    rw [getInsertSelf, getInsertSelf]
  · rw [getInsertOther _ v same, getInsertOther _ v same, getEraseOther _ same]

theorem eraseInsert (fresh : m.get? k = none) (v : α) : (m.insert k v).erase k = m := by
  refine extGet fun k' => ?_
  by_cases same : k = k'
  · subst same
    rw [getEraseSelf, fresh]
  · rw [getEraseOther _ same, getInsertOther _ v same]

theorem eraseAbsent (absent : m.get? k = none) : m.erase k = m := by
  refine extGet fun k' => ?_
  by_cases same : k = k'
  · subst same
    rw [getEraseSelf, absent]
  · rw [getEraseOther _ same]

theorem valuesReplace (m : SortedMap κ α) (k : κ) (v : α) :
    (m.insert k v).values.Perm (v :: (m.erase k).values) := by
  rw [← insertErase]
  exact valuesInsert (getEraseSelf m k)

theorem getEraseSome [DecidableEq κ] {k' : κ} {w : α} :
    (m.erase k).get? k' = some w ↔ k ≠ k' ∧ m.get? k' = some w := by
  by_cases same : k = k'
  · subst same
    simp
  · simp [getEraseOther m same, same]

theorem keysOfValues {key : α → κ} (keyed : ∀ k v, m.get? k = some v → key v = k) : m.values.map key = m.keys := by
  rw [values, keys, List.map_map]
  exact List.map_congr_left fun e here => keyed e.1 e.2 (getIff.2 here)

theorem valuesOfKeys (m : SortedMap κ α) : m.values.map some = m.keys.map m.get? := by
  rw [values, keys, List.map_map, List.map_map]
  refine List.map_congr_left fun e here => ?_
  exact (getIff.2 here).symm

theorem keysInTurn {m : SortedMap UInt64 α} {last : Nat}
    (listed : ∀ n, m.contains n = true ↔ 1 ≤ n.toNat ∧ n.toNat ≤ last) (fits : last < UInt64.size) :
    m.keys.map UInt64.toNat = List.range' 1 last := by
  have ascending : (m.keys.map UInt64.toNat).Pairwise (· < ·) := by
    refine List.pairwise_map.2 (List.pairwise_map.2 (m.ascending.imp fun before => ?_))
    exact (Nat.blt_eq ..).mp before
  refine ascending.eq_of_mem_iff (List.pairwise_lt_range' 1) fun n => ?_
  rw [List.mem_map, List.mem_range'_1]
  constructor
  · rintro ⟨k, here, rfl⟩
    have bounds := (listed k).1 (Option.isSome_iff_exists.2 (memKeys.1 here))
    omega
  · rintro ⟨first, final⟩
    have value : (UInt64.ofNat n).toNat = n := UInt64.toNat_ofNat_of_lt' (by omega)
    refine ⟨UInt64.ofNat n, memKeys.2 (Option.isSome_iff_exists.1 ((listed _).2 ?_)), value⟩
    omega

end TokenBridge.SortedMap
