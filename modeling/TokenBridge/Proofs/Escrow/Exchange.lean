import TokenBridge.Proofs.Escrow.Holding
/-!
What each operation on pool and batches takes into escrow and lets out of it. Building and dissolving a batch
only moves transfers; a cancellation lets one out, the execution of a batch all of its own.
-/
namespace TokenBridge

open TokenBridge.Action

variable {s t u : Store} {x : Transfer} {into out : List Transfer} {b : Batch} {token : Address}
  {nonce : UInt64}

/-- From a store to a store `into` has entered escrow and `out` has left it. -/
structure Exchanged (into out : List Transfer) (s t : Store) : Prop where
  holding : Holding t
  balance : (out ++ t.held).Perm (into ++ s.held)

theorem Holding.here (h : Holding s) : Exchanged [] [] s s := ⟨h, .refl _⟩

theorem Exchanged.trans {into' out' : List Transfer} (h : Exchanged into out s t)
    (h' : Exchanged into' out' t u) : Exchanged (into ++ into') (out ++ out') s u := by
  refine ⟨h'.holding, List.perm_iff_count.2 fun x => ?_⟩
  have first := h.balance.count_eq x
  have second := h'.balance.count_eq x
  simp only [List.count_append] at first second ⊢
  omega

theorem heldBefore (balance : (out ++ t.held).Perm s.held) (held : x ∈ t.held) : x ∈ s.held :=
  balance.subset (List.mem_append_right _ held)

theorem Holding.after (h : Holding s) (indexed : Pool.Indexed t) (filed : Batching.Filed t)
    (balance : (out ++ t.held).Perm s.held) (last : t.lastTransfer = s.lastTransfer)
    (tokens : t.tokenOf = s.tokenOf) : Exchanged [] out s t := by
  refine ⟨⟨indexed, filed, ?_, ?_, ?_⟩, balance⟩
  · have both := (balance.map Transfer.id).nodup_iff.2 h.distinct
    rw [List.map_append] at both
    exact (List.nodup_append.1 both).2.1
  · intro x held
    rw [last]
    exact h.numbered x (heldBefore balance held)
  · intro x held
    rw [tokens]
    exact h.registered x (heldBefore balance held)

namespace Pool

theorem numberApart (h : Holding s) (next : Counter.next? s.lastTransfer = some x.id) :
    x.id ∉ s.held.map Transfer.id := by
  intro held
  obtain ⟨y, held, same⟩ := List.mem_map.1 held
  have bound := h.numbered y held
  have later := Counter.nextVal next
  rw [same] at bound
  omega

theorem numberFresh (h : Holding s) (next : Counter.next? s.lastTransfer = some x.id) :
    s.pool.get? x.id = none :=
  freshOf h.indexed fun inPool => numberApart h next (by
    rw [Store.held, List.map_append]
    exact List.mem_append_left _ inPool)

theorem enterExchanged {sender : Account} {asset : Asset} {sent fee : Amount} (h : Holding s)
    (entered : Entered s sender asset sent fee x) :
    Exchanged [x] [] s (add x { s with lastTransfer := x.id }) := by
  have later := Counter.nextVal entered.numbered
  have apart := numberApart h entered.numbered
  have fresh := numberFresh h entered.numbered
  have indexed : Indexed { s with lastTransfer := x.id } := ⟨h.indexed.keyed, h.indexed.queued⟩
  have balance : (add x { s with lastTransfer := x.id }).held.Perm (x :: s.held) :=
    (addValues fresh).append_right s.batched
  refine ⟨⟨addIndexed indexed fresh, ⟨h.filed.keyed, h.filed.numbered, h.filed.oneToken⟩, ?_, ?_, ?_⟩,
    balance⟩
  · refine (balance.map Transfer.id).nodup_iff.2 ?_
    exact List.nodup_cons.2 ⟨apart, h.distinct⟩
  · intro y held
    show y.id.toNat ≤ x.id.toNat
    rcases List.mem_cons.1 (balance.subset held) with rfl | old
    · exact Nat.le_refl _
    · have bound := h.numbered y old
      omega
  · intro y held
    rcases List.mem_cons.1 (balance.subset held) with rfl | old
    · rw [entered.inAsset]
      exact entered.paired
    · exact h.registered y old

theorem removeExchanged (h : Holding s) (here : s.pool.get? x.id = some x) :
    Exchanged [] [x] s (remove x s) := by
  refine h.after (removeIndexed h.indexed here)
    ⟨h.filed.keyed, h.filed.numbered, h.filed.oneToken⟩ ?_ rfl rfl
  exact ((removeValues here).append_right s.batched).symm

end Pool

theorem Holding.batchApart (h : Holding s) (found : s.batches.get? (token, nonce) = some b) :
    ((b.transfers ++ s.pool.values).map Transfer.id).Nodup := by
  have erased := Batching.batchedErase found
  have spread : (b.transfers ++ s.pool.values ++
      (s.batches.erase (token, nonce)).values.flatMap Batch.transfers).Perm s.held := by
    refine List.perm_iff_count.2 fun y => ?_
    have part := erased.count_eq y
    simp only [Store.held, Store.batched, List.count_append] at part ⊢
    omega
  have all := (spread.map Transfer.id).nodup_iff.2 h.distinct
  rw [List.map_append] at all
  exact (List.nodup_append.1 all).1

namespace Batching

variable {transfers : List Transfer} {limit : Nat}

theorem chosenPooled (h : Pool.Indexed s)
    (read : (chosen s token limit).map s.pool.get? = transfers.map some) :
    (transfers.map Transfer.id).Nodup ∧
      ∀ x ∈ transfers, s.pool.get? x.id = some x ∧ x.token = token := by
  have queued : ∀ p ∈ ((s.feeQueue.filter fun p _ => p.1 = token).keys.take limit),
      ∃ y, s.pool.get? y.id = some y ∧ Pool.place y = p ∧ p.1 = token := by
    intro p taken
    obtain ⟨⟨⟩, found⟩ := SortedMap.memKeys.1 (List.mem_of_mem_take taken)
    rw [SortedMap.getFilter] at found
    obtain ⟨found, ofToken⟩ := Option.filter_eq_some_iff.1 found
    obtain ⟨y, pooled, same⟩ := (h.queued p).1 found
    exact ⟨y, pooled, same, by simpa using ofToken⟩
  have distinct : (chosen s token limit).Nodup := by
    refine List.Nodup.map_on ?_ ((SortedMap.keysNodup _).sublist (List.take_sublist ..))
    intro p hp q hq same
    obtain ⟨y, pooledY, rfl, _⟩ := queued p hp
    obtain ⟨z, pooledZ, rfl, _⟩ := queued q hq
    have sameId : y.id = z.id := same
    rw [sameId, pooledZ] at pooledY
    cases pooledY
    rfl
  have ids : transfers.map Transfer.id = chosen s token limit := by
    clear distinct queued
    generalize chosen s token limit = ids at read
    induction ids generalizing transfers with
    | nil =>
      cases transfers with
      | nil => rfl
      | cons x rest => cases read
    | cons k rest ih =>
      cases transfers with
      | nil => cases read
      | cons x later =>
        obtain ⟨head, tail⟩ := List.cons.inj read
        rw [List.map_cons, ih tail, h.keyed k x head]
  refine ⟨ids ▸ distinct, fun x inside => ?_⟩
  have chosen : x.id ∈ chosen s token limit := ids ▸ List.mem_map_of_mem inside
  obtain ⟨p, taken, same⟩ := List.mem_map.1 chosen
  obtain ⟨y, pooled, rfl, ofToken⟩ := queued p taken
  have read' : some x ∈ (Batching.chosen s token limit).map s.pool.get? :=
    read ▸ List.mem_map_of_mem inside
  obtain ⟨k, _, found⟩ := List.mem_map.1 read'
  have here : s.pool.get? x.id = some x := by rw [h.keyed k x found]; exact found
  have sameTransfer : x = y := by
    rw [← same] at here
    exact Option.some.inj (here.symm.trans pooled)
  exact ⟨here, sameTransfer ▸ ofToken⟩

theorem Filed.unnumbered (h : Filed s) (later : nonce.toNat = (s.lastBatch.getD token 0).toNat + 1) :
    s.batches.get? (token, nonce) = none := by
  cases found : s.batches.get? (token, nonce) with
  | none => rfl
  | some old =>
    have bound := h.numbered _ _ old found
    omega

theorem assembleTaken {height timeout : UInt64} (h : Pool.Indexed s)
    (made : Yields (assemble token limit height timeout) s b t) :
    Pool.Indexed t ∧ s.pool.values.Perm (b.transfers ++ t.pool.values) := by
  obtain ⟨_, read, _, _, _, _, rfl⟩ := assembleYields made
  obtain ⟨distinct, pooled⟩ := chosenPooled h read
  obtain ⟨indexed, taken⟩ := Pool.removeAllPool h distinct fun x inside => (pooled x inside).1
  exact ⟨⟨indexed.keyed, indexed.queued⟩, taken⟩

theorem assembleExchanged {height timeout : UInt64} (h : Holding s)
    (made : Yields (assemble token limit height timeout) s b t) : Exchanged [] [] s t := by
  obtain ⟨indexed, taken⟩ := assembleTaken h.indexed made
  obtain ⟨_, read, ofToken, _, _, next, rfl⟩ := assembleYields made
  obtain ⟨_, pooled⟩ := chosenPooled h.indexed read
  obtain ⟨pool, feeQueue, removed⟩ := Pool.removeAllKeeps b.transfers s
  rw [removed] at indexed taken next ⊢
  have later := Counter.nextVal next
  have fresh : s.batches.get? (token, b.nonce) = none := h.filed.unnumbered later
  refine h.after indexed ⟨?_, ?_, ?_⟩ ?_ rfl rfl
  · intro k n c found
    rw [SortedMap.getInsert] at found
    split at found
    · rename_i same
      cases same
      cases found
      exact ⟨ofToken, rfl⟩
    · exact h.filed.keyed k n c found
  · intro k n c found
    simp only [SortedMap.getD, SortedMap.getInsert] at found later ⊢
    split at found
    · rename_i same
      cases same
      simp
    · have bound := h.filed.numbered k n c found
      simp only [SortedMap.getD] at bound
      split
      · rename_i same
        subst same
        simp only [Option.getD_some]
        omega
      · exact bound
  · intro k n c found x inside
    rw [SortedMap.getInsert] at found
    split at found
    · rename_i same
      cases same
      cases found
      exact (pooled x inside).2
    · exact h.filed.oneToken k n c found x inside
  · refine List.perm_iff_count.2 fun y => ?_
    have left := taken.count_eq y
    have filed := (batchedInsert (b := b) fresh).count_eq y
    simp only [Store.held, Store.batched, List.nil_append, List.count_append] at left filed ⊢
    omega

theorem dissolveExchanged {v : PUnit} (h : Holding s) (done : Yields (dissolve token nonce) s v t) :
    Exchanged [] [] s t := by
  obtain ⟨b, found, rfl⟩ := dissolveYields done
  have erased := batchedErase found
  obtain ⟨indexed, listed⟩ := Pool.addAllPool h.indexed (h.batchApart found)
  obtain ⟨pool, feeQueue, added⟩ := Pool.addAllKeeps b.transfers s
  rw [added] at indexed listed ⊢
  have filed : Filed { s with pool, feeQueue } :=
    ⟨h.filed.keyed, h.filed.numbered, h.filed.oneToken⟩
  refine h.after ⟨indexed.keyed, indexed.queued⟩ (discardFiled filed) ?_ rfl rfl
  refine List.perm_iff_count.2 fun y => ?_
  have part := erased.count_eq y
  have pooled := listed.count_eq y
  simp only [Store.held, Store.batched, discard, List.nil_append, List.count_append] at part pooled ⊢
  omega

theorem discardExchanged (h : Holding s) (found : s.batches.get? (token, nonce) = some b) :
    Exchanged [] b.transfers s (discard token nonce s) := by
  refine h.after ⟨h.indexed.keyed, h.indexed.queued⟩ (discardFiled h.filed) ?_ rfl rfl
  refine List.perm_iff_count.2 fun y => ?_
  have part := (batchedErase found).count_eq y
  simp only [Store.held, Store.batched, discard, List.count_append] at part ⊢
  omega

theorem discardBatches {k : Address × UInt64} {c : Batch} :
    (discard token nonce s).batches.get? k = some c ↔
      s.batches.get? k = some c ∧ ¬ (k.1 = token ∧ k.2 = nonce) := by
  rw [discard, SortedMap.getEraseSome, and_comm]
  refine and_congr_right fun _ => not_congr ⟨?_, ?_⟩
  · rintro rfl
    exact ⟨rfl, rfl⟩
  · rintro ⟨rfl, rfl⟩
    rfl

theorem discardConfirmations {k : Address × UInt64 × Account} {c : BatchConfirmation} :
    (discard token nonce s).batchConfirmations.get? k = some c ↔
      s.batchConfirmations.get? k = some c ∧ ¬ (k.1 = token ∧ k.2.1 = nonce) := by
  rw [discard, SortedMap.getFilter, Option.filter_eq_some_iff]
  simp [imp_iff_not_or]

def FewerBatches (s t : Store) : Prop :=
  ∀ k b, t.batches.get? k = some b → s.batches.get? k = some b

theorem discardFewer : FewerBatches s (discard token nonce s) := fun _ _ found => (discardBatches.1 found).1

theorem dissolveFewer {v : PUnit} (done : Yields (dissolve token nonce) s v t) :
    FewerBatches s t := by
  obtain ⟨b, _, rfl⟩ := dissolveYields done
  obtain ⟨_, _, added⟩ := Pool.addAllKeeps b.transfers s
  rw [added]
  exact discardFewer

theorem dissolveSpares {v : PUnit} {k : Address × UInt64}
    (done : Yields (dissolve token nonce) s v t) (apart : (token, nonce) ≠ k)
    (found : s.batches.get? k = some b) : t.batches.get? k = some b := by
  obtain ⟨c, _, rfl⟩ := dissolveYields done
  obtain ⟨_, _, added⟩ := Pool.addAllKeeps c.transfers s
  rw [added]
  exact SortedMap.getEraseSome.2 ⟨apart, found⟩

theorem memOlder {n : UInt64} : n ∈ olderThan s token nonce ↔
    (∃ c, s.batches.get? (token, n) = some c) ∧ n.toNat < nonce.toNat := by
  rw [olderThan, List.mem_map]
  constructor
  · rintro ⟨⟨k, m⟩, listed, rfl⟩
    obtain ⟨c, listed⟩ := SortedMap.memKeys.1 listed
    rw [SortedMap.getFilter] at listed
    obtain ⟨found, older⟩ := Option.filter_eq_some_iff.1 listed
    simp only [Counter.below, Bool.and_eq_true, decide_eq_true_eq, Nat.blt_eq] at older
    obtain ⟨rfl, below⟩ := older
    exact ⟨⟨c, found⟩, below⟩
  · rintro ⟨⟨c, found⟩, below⟩
    refine ⟨(token, n), SortedMap.memKeys.2 ⟨c, ?_⟩, rfl⟩
    rw [SortedMap.getFilter, found]
    simp [Option.filter_eq_some_iff, Counter.below, Nat.blt_eq, below]

theorem olderSpares {v : PUnit} (older : Yields (forM (olderThan s token nonce) (dissolve token)) s v t)
    (found : s.batches.get? (token, nonce) = some b) : t.batches.get? (token, nonce) = some b := by
  refine forMKeeps (P := fun u => u.batches.get? (token, nonce) = some b) older found ?_
  intro n earlier u w stored round
  refine dissolveSpares round ?_ stored
  rintro ⟨⟩
  exact Nat.lt_irrefl _ (memOlder.1 earlier).2

theorem dissolvesExchanged {α : Type} {xs : List α} {token : α → Address} {nonce : α → UInt64}
    {v : PUnit} (h : Holding s) (done : Yields (forM xs fun x => dissolve (token x) (nonce x)) s v t) :
    Exchanged [] [] s t ∧ FewerBatches s t := by
  have start : Exchanged [] [] s s ∧ FewerBatches s s := ⟨h.here, fun _ _ found => found⟩
  refine forMKeeps (P := fun u => Exchanged [] [] s u ∧ FewerBatches s u) done start ?_
  intro x _ u w ⟨kept, fewer⟩ round
  exact ⟨kept.trans (dissolveExchanged kept.holding round), fun k b found =>
    fewer k b (dissolveFewer round k b found)⟩

end Batching

end TokenBridge
