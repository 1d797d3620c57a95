import TokenBridge.Proofs.SortedMap.Listing
import TokenBridge.Proofs.Voting.Discipline
import Mathlib.Data.List.Nodup
import Mathlib.Data.List.Perm.Basic
/-!
The signers of now, and how far power has drifted from a set. Bound validators have signers of their own, so the
addresses of a set are distinct and a set has not drifted from another with the same members.
-/
namespace TokenBridge

open TokenBridge.Action

namespace Sorting

variable {α : Type} (precedes : α → α → Bool)

theorem insertPerm (a : α) (xs : List α) : (insert precedes a xs).Perm (a :: xs) := by
  induction xs with
  | nil => exact .refl _
  | cons b rest ih =>
    rw [insert]
    split
    · exact (ih.cons b).trans (.swap a b rest)
    · exact .refl _

theorem sortPerm (xs : List α) : (sort precedes xs).Perm xs := by
  induction xs with
  | nil => exact .refl _
  | cons a rest ih => exact (insertPerm precedes a _).trans (ih.cons a)

theorem sortNil {xs : List α} : sort precedes xs = [] ↔ xs = [] := by
  rw [← List.length_eq_zero_iff, (sortPerm precedes xs).length_eq, List.length_eq_zero_iff]

end Sorting

variable {s t : Store} {block : Block} {members : List Signer} {set set' : SignerSet} {a : Address}
  {p : UInt64}

namespace SignerSet

theorem tableGet (distinct : (members.map Signer.address).Nodup) (table : SortedMap Address UInt64) :
    (members.foldl (fun table m => table.insert m.address m.power) table).get? a = some p ↔
      ⟨p, a⟩ ∈ members ∨ (a ∉ members.map Signer.address ∧ table.get? a = some p) := by
  induction members generalizing table with
  | nil => simp
  | cons m rest ih =>
    obtain ⟨apart, others⟩ := List.nodup_cons.1 distinct
    rw [List.foldl_cons, ih others, SortedMap.getInsert, List.mem_cons, List.map_cons, List.mem_cons]
    obtain ⟨power, address⟩ := m
    by_cases same : address = a
    · subst same
      have absent : ∀ q, (⟨q, address⟩ : Signer) ∉ rest := fun q inside =>
        apart (List.mem_map.2 ⟨_, inside, rfl⟩)
      simp [absent, apart, eq_comm]
    · have different : ¬ (⟨p, a⟩ : Signer) = ⟨power, address⟩ := fun equal =>
        same (congrArg Signer.address equal).symm
      simp [same, Ne.symm same, different]

theorem powersGet (distinct : (set.members.map Signer.address).Nodup) :
    set.powers.get? a = some p ↔ ⟨p, a⟩ ∈ set.members := by
  rw [powers, tableGet distinct]
  simp

theorem movementNone {table : SortedMap Address UInt64} (distinct : (members.map Signer.address).Nodup)
    (listed : ∀ a p, table.get? a = some p ↔ ⟨p, a⟩ ∈ members) : movement table members = 0 := by
  induction members generalizing table with
  | nil =>
    have empty : table = ∅ := SortedMap.extGet fun a => by
      rw [SortedMap.getEmpty, Option.eq_none_iff_forall_ne_some]
      exact fun p found => nomatch (listed a p).1 found
    rw [empty]
    rfl
  | cons m rest ih =>
    obtain ⟨apart, others⟩ := List.nodup_cons.1 distinct
    have here := (listed m.address m.power).2 (List.mem_cons_self ..)
    have left : movement (table.erase m.address) rest = 0 := ih others fun a p => by
      rw [SortedMap.getEraseSome, listed, List.mem_cons]
      constructor
      · rintro ⟨other, rfl | inside⟩
        · exact absurd rfl other
        · exact inside
      · intro inside
        exact ⟨fun same => apart (same ▸ List.mem_map_of_mem inside), .inr inside⟩
    show Counter.distance (table.getD m.address 0) m.power + movement (table.erase m.address) rest = 0
    rw [left, SortedMap.getD, here, Option.getD_some, Counter.distance, Nat.sub_self]

theorem driftNone (distinct : (set.members.map Signer.address).Nodup)
    (same : set'.members = set.members) : set.drift? set' = some ⟨0, by decide⟩ := by
  have still := movementNone distinct fun _ _ => powersGet distinct
  unfold drift?
  rw [same, still]
  decide

end SignerSet

def Store.SignersApart (s : Store) : Prop :=
  ∀ v a, s.signerOf.get? v = some a → s.validatorOfSigner.get? a = some v

theorem Store.SignersApart.distinct (inv : s.SignersApart) : s.signerOf.values.Nodup := by
  refine SortedMap.valuesDistinct fun v w a first second => ?_
  exact Option.some.inj ((inv v a first).symm.trans (inv w a second))

theorem PollKept.signersApart (h : PollKept s t) (inv : s.SignersApart) : t.SignersApart := by
  intro v a
  rw [h.signerOf, h.validatorOfSigner]
  exact inv v a

theorem Enrolled.signersApart (inv : s.SignersApart) (h : Enrolled s t) : t.SignersApart := by
  obtain @⟨validator, _, signer, _, _, unused, rfl⟩ := h
  intro v a signs
  simp only [SortedMap.getInsert] at signs ⊢
  split at signs
  · rename_i same
    cases signs
    rw [if_pos rfl, same]
  · have old := inv v a signs
    refine (if_neg fun taken => ?_).trans old
    rw [← taken, unused] at old
    cases old

theorem Polling.signersApart (inv : s.SignersApart) (polling : Polling block s t) : t.SignersApart := by
  cases polling with
  | kept kept => exact kept.signersApart inv
  | voted _ _ cast kept =>
    obtain ⟨_, rfl⟩ := Voting.castYields cast
    exact kept.signersApart inv
  | enrolled enrolled => exact enrolled.signersApart inv

theorem Journal.Run.signersApart {j : Journal} (run : j.Run) : j.store.SignersApart := by
  refine Run.keeps ?setUp ?deed run
  case setUp =>
    intro block m r t yields
    exact (Contract.setUpPoll yields).signersApart fun _ _ => nofun
  case deed =>
    intro j block order r t _ inv later yields
    exact (Chain.laterPolling later yields).signersApart inv

namespace StakeView

variable {view : StakeView}

theorem boundIff {e : Account × UInt64} {b : Address × UInt64} :
    (if e.2 = 0 then none else (s.signerOf.get? e.1).map fun signer => (signer, e.2)) = some b ↔
      e.2 ≠ 0 ∧ s.signerOf.get? e.1 = some b.1 ∧ e.2 = b.2 := by
  split
  · rename_i zero
    simp [zero]
  · rename_i powered
    simp [powered, Prod.ext_iff]

theorem boundApart (distinct : s.signerOf.values.Nodup) (listed : ((view.staked s).map Prod.fst).Nodup) :
    ((view.boundStakes s).map Prod.fst).Nodup := by
  refine List.pairwise_map.2 (List.pairwise_filterMap.2 ((List.pairwise_map.1 listed).imp ?_))
  rintro e e' apart b bound b' bound' same
  have first := (boundIff.1 bound).2.1
  have second := (boundIff.1 bound').2.1
  exact apart (SortedMap.valuesTell distinct first (same ▸ second))

theorem storedListed (s : Store) : ((stored.staked s).map Prod.fst).Nodup :=
  List.pairwise_map.2 ((List.pairwise_map.1 (SortedMap.keysNodup s.powers)).filter _)

theorem boundNone : stored.boundStakes s = [] ↔
    ∀ v a, s.signerOf.get? v = some a → s.powers.getD v 0 = 0 := by
  unfold boundStakes
  rw [List.filterMap_eq_nil_iff]
  constructor
  · intro unbound v a signs
    cases found : s.powers.get? v with
    | none => rw [SortedMap.getD, found, Option.getD_none]
    | some stake =>
      rw [SortedMap.getD, found, Option.getD_some]
      by_contra powered
      have staked : (v, stake) ∈ stored.staked s :=
        List.mem_filter.2 ⟨SortedMap.getIff.1 found, by simpa using powered⟩
      simpa [powered, signs] using unbound _ staked
  · rintro powerless ⟨v, stake⟩ staked
    obtain ⟨listed, powered⟩ := List.mem_filter.1 staked
    have powered : stake ≠ 0 := by simpa using powered
    have found : s.powers.getD v 0 = stake := by
      rw [SortedMap.getD, SortedMap.getIff.2 listed, Option.getD_some]
    cases signs : s.signerOf.get? v with
    | none => simp [signs]
    | some a => exact absurd (found.symm.trans (powerless v a signs)) powered

theorem signersDistinct (distinct : s.signerOf.values.Nodup) (listed : ((view.staked s).map Prod.fst).Nodup) :
    ((view.signers s).map Signer.address).Nodup := by
  unfold signers Signer.ranked
  refine ((Sorting.sortPerm ..).map Signer.address).nodup_iff.2 ?_
  rw [List.map_map]
  exact boundApart distinct listed

theorem signersApart (inv : s.SignersApart) : ((stored.signers s).map Signer.address).Nodup :=
  signersDistinct inv.distinct (storedListed s)

theorem signersNone : stored.signers s = [] ↔
    ∀ v a, s.signerOf.get? v = some a → s.powers.getD v 0 = 0 := by
  rw [signers, Signer.ranked, Sorting.sortNil, List.map_eq_nil_iff, boundNone]

end StakeView

end TokenBridge
