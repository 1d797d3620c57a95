import TokenBridge.Proofs.Outcome.Frame
import TokenBridge.Proofs.SortedMap.Listing
import Mathlib.Data.List.Nodup
/-!
What the bridge holds in escrow: the transfers of the pool and of the stored batches. `Holding` says that each
of them is held in one place; every change of pool and batches is a permutation up to what enters or
leaves.
-/
namespace TokenBridge

open TokenBridge.Action

variable {s t u : Store} {x : Transfer} {xs : List Transfer} {b : Batch} {token : Address}
  {nonce : UInt64}

def Store.held (s : Store) : List Transfer := s.pool.values ++ s.batched

structure Pool.Indexed (s : Store) : Prop where
  keyed : ∀ k x, s.pool.get? k = some x → x.id = k
  queued : ∀ p, s.feeQueue.get? p = some () ↔ ∃ x, s.pool.get? x.id = some x ∧ Pool.place x = p

structure Batching.Filed (s : Store) : Prop where
  keyed : ∀ k n b, s.batches.get? (k, n) = some b → b.token = k ∧ b.nonce = n
  numbered : ∀ k n b, s.batches.get? (k, n) = some b → n.toNat ≤ (s.lastBatch.getD k 0).toNat
  oneToken : ∀ k n b, s.batches.get? (k, n) = some b → ∀ x ∈ b.transfers, x.token = k

theorem Batching.Filed.keysDistinct {s : Store} (h : Filed s) :
    (s.batches.values.map fun b => (b.token, b.nonce)).Nodup := by
  rw [SortedMap.keysOfValues fun key b found => Prod.ext_iff.2 (h.keyed key.1 key.2 b found)]
  exact SortedMap.keysNodup _

structure Holding (s : Store) : Prop where
  indexed : Pool.Indexed s
  filed : Batching.Filed s
  distinct : (s.held.map Transfer.id).Nodup
  numbered : ∀ x ∈ s.held, x.id.toNat ≤ s.lastTransfer.toNat
  registered : ∀ x ∈ s.held, s.tokenOf.get? x.asset.key = some x.token

namespace Pool

theorem placeId {x y : Transfer} (h : place x = place y) : x.id = y.id :=
  congrArg (fun p => p.2.2) h

theorem addIndexed (h : Indexed s) (fresh : s.pool.get? x.id = none) : Indexed (add x s) where
  keyed := by
    intro k y found
    simp only [add, SortedMap.getInsert] at found
    split at found
    · rename_i same
      cases found
      exact same
    · exact h.keyed k y found
  queued := by
    intro p
    simp only [add, SortedMap.getInsert]
    constructor
    · intro queued
      split at queued
      · rename_i same
        exact ⟨x, by simp, same⟩
      · obtain ⟨y, found, same⟩ := (h.queued p).1 queued
        have apart : x.id ≠ y.id := fun same => by rw [same, found] at fresh; cases fresh
        exact ⟨y, by rw [if_neg apart, found], same⟩
    · rintro ⟨y, found, same⟩
      split at found
      · cases found
        rw [if_pos same]
      · split
        · rfl
        · exact (h.queued p).2 ⟨y, found, same⟩

theorem removeIndexed (h : Indexed s) (here : s.pool.get? x.id = some x) : Indexed (remove x s) where
  keyed k y found := h.keyed k y (SortedMap.getEraseSome.1 found).2
  queued p := by
    simp only [remove, SortedMap.getEraseSome]
    constructor
    · rintro ⟨apart, queued⟩
      obtain ⟨y, found, same⟩ := (h.queued p).1 queued
      refine ⟨y, ⟨fun sameId => apart ?_, found⟩, same⟩
      rw [sameId, found] at here
      cases here
      exact same
    · rintro ⟨y, ⟨apart, found⟩, same⟩
      exact ⟨fun samePlace => apart (placeId (samePlace.trans same.symm)),
        (h.queued p).2 ⟨y, found, same⟩⟩

theorem addValues (fresh : s.pool.get? x.id = none) :
    (add x s).pool.values.Perm (x :: s.pool.values) :=
  SortedMap.valuesInsert fresh

theorem removeValues (here : s.pool.get? x.id = some x) :
    s.pool.values.Perm (x :: (remove x s).pool.values) :=
  SortedMap.valuesErase here

theorem Indexed.getIff (h : Indexed s) {id : UInt64} :
    s.pool.get? id = some x ↔ x ∈ s.pool.values ∧ x.id = id := by
  rw [SortedMap.memValues]
  constructor
  · exact fun found => ⟨⟨id, found⟩, h.keyed id x found⟩
  · rintro ⟨⟨k, found⟩, rfl⟩
    rw [h.keyed k x found]
    exact found

theorem Indexed.same (h : Indexed s) (h' : Indexed t)
    (alike : ∀ id x, s.pool.get? id = some x ↔ t.pool.get? id = some x) :
    s.pool = t.pool ∧ s.feeQueue = t.feeQueue := by
  refine ⟨SortedMap.extGet fun id => Option.ext (alike id), SortedMap.extGet fun p => Option.ext fun ⟨⟩ => ?_⟩
  rw [h.queued, h'.queued]
  exact exists_congr fun x => and_congr_left fun _ => alike x.id x

theorem freshOf (h : Indexed s) (apart : x.id ∉ s.pool.values.map Transfer.id) :
    s.pool.get? x.id = none := by
  cases found : s.pool.get? x.id with
  | none => rfl
  | some y =>
    refine absurd (List.mem_map.2 ⟨y, SortedMap.memValues.2 ⟨x.id, found⟩, ?_⟩) apart
    exact h.keyed _ _ found

theorem addAllPool (h : Indexed s) (distinct : ((xs ++ s.pool.values).map Transfer.id).Nodup) :
    Indexed (addAll xs s) ∧ (addAll xs s).pool.values.Perm (xs ++ s.pool.values) := by
  induction xs generalizing s with
  | nil => exact ⟨h, .refl _⟩
  | cons x rest ih =>
    rw [List.cons_append, List.map_cons] at distinct
    obtain ⟨apart, _⟩ := List.nodup_cons.1 distinct
    have fresh : s.pool.get? x.id = none :=
      freshOf h fun inPool => apart (by rw [List.map_append]; exact List.mem_append_right _ inPool)
    have entered : (rest ++ (add x s).pool.values).Perm (x :: (rest ++ s.pool.values)) :=
      ((addValues fresh).append_left rest).trans List.perm_middle
    obtain ⟨indexed, listed⟩ := ih (addIndexed h fresh)
      ((entered.map Transfer.id).nodup_iff.2 distinct)
    exact ⟨indexed, listed.trans entered⟩

theorem removeAllPool (h : Indexed s) (distinct : (xs.map Transfer.id).Nodup)
    (here : ∀ x ∈ xs, s.pool.get? x.id = some x) :
    Indexed (removeAll xs s) ∧ s.pool.values.Perm (xs ++ (removeAll xs s).pool.values) := by
  induction xs generalizing s with
  | nil => exact ⟨h, .refl _⟩
  | cons x rest ih =>
    obtain ⟨apart, others⟩ := List.nodup_cons.1 distinct
    have first := here x (List.mem_cons_self ..)
    obtain ⟨indexed, listed⟩ := ih (removeIndexed h first) others fun y inRest =>
      SortedMap.getEraseSome.2 ⟨fun same => apart (List.mem_map.2 ⟨y, inRest, same.symm⟩),
        here y (List.mem_cons_of_mem _ inRest)⟩
    exact ⟨indexed, (removeValues first).trans (listed.cons x)⟩

end Pool

namespace Batching

theorem batchedInsert {batches : SortedMap (Address × UInt64) Batch} {k : Address × UInt64}
    (fresh : batches.get? k = none) :
    ((batches.insert k b).values.flatMap Batch.transfers).Perm
      (b.transfers ++ batches.values.flatMap Batch.transfers) :=
  (SortedMap.valuesInsert fresh).flatMap_right Batch.transfers

theorem batchedErase {batches : SortedMap (Address × UInt64) Batch} {k : Address × UInt64}
    (found : batches.get? k = some b) :
    (batches.values.flatMap Batch.transfers).Perm
      (b.transfers ++ (batches.erase k).values.flatMap Batch.transfers) :=
  (SortedMap.valuesErase found).flatMap_right Batch.transfers

theorem memBatched {k : Address × UInt64} (found : s.batches.get? k = some b)
    (inside : x ∈ b.transfers) : x ∈ s.batched :=
  List.mem_flatMap.2 ⟨b, SortedMap.memValues.2 ⟨k, found⟩, inside⟩

theorem discardFiled (h : Filed s) : Filed (discard token nonce s) where
  keyed k n b found := h.keyed k n b (SortedMap.getEraseSome.1 found).2
  numbered k n b found := h.numbered k n b (SortedMap.getEraseSome.1 found).2
  oneToken k n b found := h.oneToken k n b (SortedMap.getEraseSome.1 found).2

end Batching

end TokenBridge
