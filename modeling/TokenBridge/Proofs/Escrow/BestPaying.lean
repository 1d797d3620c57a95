import TokenBridge.Proofs.Escrow.Shape
import TokenBridge.Proofs.Outcome.Halting
/-!
Which transfers a batch takes. The fee queue turns the fee round, so its places of one token list the pooled
transfers of that token by falling fee and rising number, and a batch is the first of them.
-/
namespace TokenBridge

open TokenBridge.Action

variable {s t : Store} {x y : Transfer} {xs : List Transfer} {b : Batch} {token : Address} {limit : Nat}
  {height timeout : UInt64}

def Transfer.OutPays (x y : Transfer) : Prop := y.fee.val < x.fee.val ∨ x.fee = y.fee ∧ x.id.toNat < y.id.toNat

namespace Pool

theorem placeBefore (sameToken : x.token = y.token) (before : Key.before (place x) (place y) = true) :
    x.OutPays y := by
  have feeX := x.fee.bound
  have feeY := y.fee.bound
  rcases Key.pairBeforeIff.1 before with first | ⟨_, second⟩
  · have token : Key.before x.token y.token = true := first
    rw [sameToken, Key.irrefl] at token
    cases token
  · rcases Key.pairBeforeIff.1 second with closer | ⟨level, lower⟩
    · have closer : Nat.blt x.fee.headroom.val y.fee.headroom.val = true := closer
      simp only [Nat.blt_eq, Amount.headroom] at closer
      exact .inl (by omega)
    · have level : x.fee.headroom.val = y.fee.headroom.val := congrArg Amount.val level
      have lower : Nat.blt x.id.toNat y.id.toNat = true := lower
      simp only [Amount.headroom] at level
      exact .inr ⟨Amount.ext (by omega), by rwa [Nat.blt_eq] at lower⟩

def placesOf (s : Store) (token : Address) : List FeePlace := (s.feeQueue.filter fun place _ => place.1 = token).keys

def queued (s : Store) (token : Address) : List Transfer :=
  (placesOf s token).filterMap fun place => s.pool.get? place.2.2

theorem memPlaces (h : Indexed s) {p : FeePlace} :
    p ∈ placesOf s token ↔ ∃ x, s.pool.get? x.id = some x ∧ x.token = token ∧ place x = p := by
  have placed : p ∈ placesOf s token ↔ s.feeQueue.get? p = some () ∧ p.1 = token := by
    simp [placesOf, SortedMap.memKeys, SortedMap.getFilter, Option.filter_eq_some_iff, Unique.exists_iff]
  rw [placed, h.queued]
  constructor
  · rintro ⟨⟨x, pooled, rfl⟩, ofToken⟩
    exact ⟨x, pooled, ofToken, rfl⟩
  · rintro ⟨x, pooled, ofToken, rfl⟩
    exact ⟨⟨x, pooled, rfl⟩, ofToken⟩

theorem queuedPlaces (h : Indexed s) : (queued s token).map place = placesOf s token := by
  have pooled : ∀ p ∈ placesOf s token, (s.pool.get? p.2.2).map place = some p := by
    intro p listed
    obtain ⟨x, pooled, _, rfl⟩ := (memPlaces h).1 listed
    show (s.pool.get? x.id).map place = some (place x)
    rw [pooled, Option.map_some]
  rw [queued, List.map_filterMap, List.filterMap_congr pooled, List.filterMap_some]

theorem memQueued (h : Indexed s) : x ∈ queued s token ↔ s.pool.get? x.id = some x ∧ x.token = token := by
  rw [queued, List.mem_filterMap]
  constructor
  · rintro ⟨p, listed, found⟩
    obtain ⟨y, pooled, ofToken, rfl⟩ := (memPlaces h).1 listed
    have found : s.pool.get? y.id = some x := found
    rw [pooled] at found
    cases found
    exact ⟨pooled, ofToken⟩
  · rintro ⟨pooled, ofToken⟩
    exact ⟨place x, (memPlaces h).2 ⟨x, pooled, ofToken, rfl⟩, pooled⟩

theorem queuedSorted (h : Indexed s) : (queued s token).Pairwise Transfer.OutPays := by
  have ascending : (placesOf s token).Pairwise fun p q => Key.before p q = true :=
    List.pairwise_map.2 (SortedMap.ascending _)
  rw [← queuedPlaces h, List.pairwise_map] at ascending
  refine ascending.imp_of_mem fun insideX insideY before => placeBefore ?_ before
  rw [((memQueued h).1 insideX).2, ((memQueued h).1 insideY).2]

theorem valuesNodup (h : Indexed s) : s.pool.values.Nodup := by
  have ids : s.pool.values.map Transfer.id = s.pool.keys := SortedMap.keysOfValues h.keyed
  exact List.Nodup.of_map Transfer.id (ids ▸ SortedMap.keysNodup _)

theorem queuedPerm (h : Indexed s) :
    (queued s token).Perm (s.pool.values.filter fun x => x.token = token) := by
  have nodup : (queued s token).Nodup :=
    List.Nodup.of_map place (queuedPlaces h ▸ SortedMap.keysNodup _)
  refine (List.perm_ext_iff_of_nodup nodup ((valuesNodup h).filter _)).2 fun x => ?_
  rw [memQueued h, List.mem_filter, SortedMap.memValues, decide_eq_true_eq]
  refine and_congr_left fun _ => ⟨fun pooled => ⟨_, pooled⟩, ?_⟩
  rintro ⟨k, found⟩
  rw [h.keyed k x found]
  exact found

theorem queuedOutPays (h : Indexed s) (first : x ∈ (queued s token).take limit) (here : y ∈ queued s token)
    (later : y ∉ (queued s token).take limit) : x.OutPays y := by
  have sorted : (queued s token).Pairwise Transfer.OutPays := queuedSorted h
  rw [← List.take_append_drop limit (queued s token), List.mem_append] at here
  rw [← List.take_append_drop limit (queued s token), List.pairwise_append] at sorted
  exact sorted.2.2 x first y (here.resolve_left later)

theorem removedIds {k : UInt64} :
    (removeAll xs s).pool.get? k = some y ↔ s.pool.get? k = some y ∧ k ∉ xs.map Transfer.id := by
  induction xs generalizing s with
  | nil => simp [removeAll]
  | cons x rest ih =>
    have first : (removeAll (x :: rest) s).pool.get? k = some y ↔
        (remove x s).pool.get? k = some y ∧ k ∉ rest.map Transfer.id := ih
    rw [first, remove, SortedMap.getEraseSome, List.map_cons, List.mem_cons, not_or, ne_comm]
    tauto

theorem removedPool (h : Indexed s) (here : ∀ x ∈ xs, s.pool.get? x.id = some x) (k : UInt64) (y : Transfer) :
    (removeAll xs s).pool.get? k = some y ↔ s.pool.get? k = some y ∧ y ∉ xs := by
  rw [removedIds]
  refine and_congr_right fun found => not_congr ⟨fun listed => ?_, fun inside => ?_⟩
  · obtain ⟨z, inside, same⟩ := List.mem_map.1 listed
    have there := here z inside
    rw [same, found] at there
    cases there
    exact inside
  · exact h.keyed k y found ▸ List.mem_map_of_mem inside

theorem removedQueue (xs : List Transfer) (s : Store) (p : FeePlace) :
    (removeAll xs s).feeQueue.get? p = some () ↔ s.feeQueue.get? p = some () ∧ p ∉ xs.map place := by
  induction xs generalizing s with
  | nil => simp [removeAll]
  | cons x rest ih =>
    have first : (removeAll (x :: rest) s).feeQueue.get? p = some () ↔
        (remove x s).feeQueue.get? p = some () ∧ p ∉ rest.map place := ih _
    rw [first, remove, SortedMap.getEraseSome, List.map_cons, List.mem_cons, not_or, ne_comm]
    tauto

end Pool

namespace Batching

theorem chosenQueued (h : Pool.Indexed s) :
    chosen s token limit = ((Pool.queued s token).take limit).map Transfer.id := by
  show ((Pool.placesOf s token).take limit).map (fun place => place.2.2) = _
  rw [← Pool.queuedPlaces h, ← List.map_take, List.map_map]
  rfl

theorem assembleEmpty (h : Pool.Indexed s) (none : ∀ id x, s.pool.get? id = some x → x.token ≠ token) :
    Halts (assemble token limit height timeout) s (.refused (.emptyBatch token)) s := by
  have nothing : Pool.queued s token = [] := List.eq_nil_iff_forall_not_mem.2 fun x inside =>
    have ⟨pooled, ofToken⟩ := (Pool.memQueued h).1 inside
    none _ x pooled ofToken
  have empty : chosen s token limit = [] := by rw [chosenQueued h, nothing, List.take_nil, List.map_nil]
  simp [assemble, empty]

theorem chosenFilled (h : Pool.Indexed s) (some : (Pool.queued s token).take limit ≠ []) :
    (!(chosen s token limit).isEmpty) = true := by
  rw [chosenQueued h]
  simpa using some

theorem chosenRead (h : Pool.Indexed s) :
    Yields ((chosen s token limit).mapM fun id => someOr .absent (s.pool.get? id)) s
      ((Pool.queued s token).take limit) s := by
  have reads : ∀ id x (u v : Store), Yields (someOr Refusal.absent (s.pool.get? id)) u x v ↔
      s.pool.get? id = some x ∧ v = u := fun _ _ _ _ => yieldsSomeOr
  refine (yieldsMapM reads).2 ⟨?_, rfl⟩
  rw [chosenQueued h, List.map_map]
  exact List.map_congr_left fun x inside => ((Pool.memQueued h).1 (List.mem_of_mem_take inside)).1

theorem assembleMade (h : Pool.Indexed s) {nonce : UInt64}
    (next : Counter.next? (s.lastBatch.getD token 0) = some nonce) (some : (Pool.queued s token).take limit ≠ []) :
    Yields (assemble token limit height timeout) s ⟨nonce, timeout, (Pool.queued s token).take limit, token, height⟩
      { Pool.removeAll ((Pool.queued s token).take limit) s with
        lastBatch := s.lastBatch.insert token nonce
        batches := s.batches.insert (token, nonce)
          ⟨nonce, timeout, (Pool.queued s token).take limit, token, height⟩ } := by
  obtain ⟨_, _, removed⟩ := Pool.removeAllKeeps ((Pool.queued s token).take limit) s
  simp only [assemble, yieldsBind, yieldsGet, yieldsRequire, yieldsModify, yieldsInRange, yieldsPure]
  refine ⟨s, s, ⟨rfl, rfl⟩, (), s, ⟨chosenFilled h some, rfl⟩, _, s, chosenRead h, ⟨⟩, _, rfl,
    _, _, ⟨rfl, rfl⟩, nonce, _, ⟨by rw [removed]; exact next, rfl⟩, ⟨⟩, _, rfl, rfl, ?_⟩
  rw [removed]

theorem assembleExhausted (h : Pool.Indexed s) (last : Counter.next? (s.lastBatch.getD token 0) = none)
    (some : (Pool.queued s token).take limit ≠ []) :
    Halts (assemble token limit height timeout) s .overflow
      (Pool.removeAll ((Pool.queued s token).take limit) s) := by
  obtain ⟨_, _, removed⟩ := Pool.removeAllKeeps ((Pool.queued s token).take limit) s
  simp only [assemble, haltsBind, yieldsGet, yieldsRequire, yieldsModify, haltsInRange]
  refine .inr ⟨s, s, ⟨rfl, rfl⟩, .inr ⟨(), s, ⟨chosenFilled h some, rfl⟩, .inr ⟨_, s, chosenRead h,
    .inr ⟨⟨⟩, _, rfl, .inr ⟨_, _, ⟨rfl, rfl⟩, .inl ⟨?_, trivial, rfl⟩⟩⟩⟩⟩⟩
  rw [removed]
  exact last

theorem assembleIff (h : Pool.Indexed s) :
    Yields (assemble token limit height timeout) s b t ↔
      (Pool.queued s token).take limit ≠ [] ∧ Counter.next? (s.lastBatch.getD token 0) = some b.nonce ∧
      b = ⟨b.nonce, timeout, (Pool.queued s token).take limit, token, height⟩ ∧
      t = { Pool.removeAll ((Pool.queued s token).take limit) s with
        lastBatch := s.lastBatch.insert token b.nonce
        batches := s.batches.insert (token, b.nonce) b } := by
  constructor
  · intro made
    obtain ⟨filled, _, _, _, _, next, _⟩ := assembleYields made
    obtain ⟨_, _, removed⟩ := Pool.removeAllKeeps b.transfers s
    rw [removed] at next
    rw [chosenQueued h, Ne, List.map_eq_nil_iff] at filled
    obtain ⟨same, after⟩ := made.alone (assembleMade h next filled)
    exact ⟨filled, next, same, by rw [after, ← same]⟩
  · rintro ⟨some, next, same, rfl⟩
    have made : Yields (assemble token limit height timeout) s _ _ := assembleMade h next some
    rwa [← same] at made

structure TakesBest (token : Address) (limit : Nat) (s : Store) (b : Batch) (t : Store) : Prop where
  first : ∃ ordered : List Transfer, ordered.Perm (s.pool.values.filter fun x => x.token = token) ∧
    ordered.Pairwise Transfer.OutPays ∧ b.transfers = ordered.take limit
  outPaid : ∀ x ∈ b.transfers, ∀ id y, t.pool.get? id = some y → y.token = token → x.OutPays y
  filled : b.transfers ≠ []
  ofToken : b.token = token
  nonce : b.nonce.toNat = (s.lastBatch.getD token 0).toNat + 1
  fresh : s.batches.get? (token, b.nonce) = none
  pool : ∀ id x, t.pool.get? id = some x ↔ s.pool.get? id = some x ∧ x ∉ b.transfers
  feeQueue : ∀ p, t.feeQueue.get? p = some () ↔ s.feeQueue.get? p = some () ∧ p ∉ b.transfers.map Pool.place
  after : t = { s with
    pool := t.pool
    feeQueue := t.feeQueue
    lastBatch := s.lastBatch.insert token b.nonce
    batches := s.batches.insert (token, b.nonce) b }

theorem assembleBest (h : Holding s) (positive : 1 ≤ limit)
    (room : (s.lastBatch.getD token 0).toNat < UInt64.size - 1) (height timeout : UInt64)
    (some : ∃ id x, s.pool.get? id = some x ∧ x.token = token) :
    ∃ b t, Yields (assemble token limit height timeout) s b t ∧ b.timeout = timeout ∧ b.block = height ∧
      TakesBest token limit s b t := by
  obtain ⟨id, x, pooled, ofToken⟩ := some
  have indexed := h.indexed
  have number := indexed.keyed id x pooled
  subst number
  have inQueue : x ∈ Pool.queued s token := (Pool.memQueued indexed).2 ⟨pooled, ofToken⟩
  have taken : (Pool.queued s token).take limit ≠ [] := by
    rw [Ne, List.take_eq_nil_iff, not_or]
    exact ⟨Nat.one_le_iff_ne_zero.1 positive, List.ne_nil_of_mem inQueue⟩
  obtain ⟨nonce, next⟩ := Counter.nextRoom room
  have here : ∀ y ∈ (Pool.queued s token).take limit, s.pool.get? y.id = .some y := fun y first =>
    ((Pool.memQueued indexed).1 (List.mem_of_mem_take first)).1
  have pool := Pool.removedPool indexed here
  have feeQueue := Pool.removedQueue ((Pool.queued s token).take limit) s
  refine ⟨_, _, assembleMade indexed next taken, rfl, rfl, ?_⟩
  obtain ⟨_, _, removed⟩ := Pool.removeAllKeeps ((Pool.queued s token).take limit) s
  rw [removed] at pool feeQueue ⊢
  constructor
  case first => exact ⟨_, Pool.queuedPerm indexed, Pool.queuedSorted indexed, rfl⟩
  case outPaid =>
    intro x first k y left ofToken
    obtain ⟨found, spared⟩ := (pool k y).1 left
    have number := indexed.keyed k y found
    subst number
    exact Pool.queuedOutPays indexed first ((Pool.memQueued indexed).2 ⟨found, ofToken⟩) spared
  case filled => exact taken
  case ofToken => rfl
  case nonce => exact Counter.nextVal next
  case fresh => exact h.filed.unnumbered (Counter.nextVal next)
  case pool => exact pool
  case feeQueue => exact feeQueue
  case after => rfl

end Batching

namespace Journal

variable {j : Journal}

theorem Run.bestPayingBatched (run : Run j) (positive : 1 ≤ limit)
    (room : (j.store.lastBatch.getD token 0).toNat < UInt64.size - 1) (height timeout : UInt64) :
    ((∀ id x, j.store.pool.get? id = some x → x.token ≠ token) →
      Halts (Batching.assemble token limit height timeout) j.store (.refused (.emptyBatch token)) j.store) ∧
    ((∃ id x, j.store.pool.get? id = some x ∧ x.token = token) →
      ∃ b t, Yields (Batching.assemble token limit height timeout) j.store b t ∧ b.timeout = timeout ∧
        b.block = height ∧ Batching.TakesBest token limit j.store b t) := by
  have holding := run.accounted.holding
  exact ⟨Batching.assembleEmpty holding.indexed, Batching.assembleBest holding positive room height timeout⟩

def crowded : Journal :=
  paired.deliverAll
    [(⟨103, 4⟩, withdrawal "alice" (.small 100) (.small 3)), (⟨104, 5⟩, withdrawal "bob" (.small 50) (.small 7)),
      (⟨105, 6⟩, withdrawal "carol" (.small 40) (.small 7)), (⟨106, 7⟩, withdrawal "alice" (.small 30) (.small 9))]

theorem crowdedRun : Run crowded := pairedRun.deliverAll (by decide)

theorem crowdedStore :
    (crowded.store.lastBatch.getD .zero 0).toNat < UInt64.size - 1 ∧
    (crowded.store.pool.get? 1).map Transfer.token = some .zero ∧
    ((Batching.chosen crowded.store .zero 2).map crowded.store.pool.get?).map (Option.map Transfer.id) =
      [4, 2].map some := by
  decide +kernel

theorem crowdedBatch :
    Run crowded ∧ 1 ≤ 2 ∧ (crowded.store.lastBatch.getD .zero 0).toNat < UInt64.size - 1 ∧
    ∃ b t, Yields (Batching.assemble .zero 2 107 3600) crowded.store b t ∧ b.transfers.map Transfer.id = [4, 2] ∧
      Batching.TakesBest .zero 2 crowded.store b t := by
  obtain ⟨room, waits, chosen⟩ := crowdedStore
  obtain ⟨x, pooled, ofToken⟩ := Option.map_eq_some_iff.1 waits
  obtain ⟨b, t, made, _, _, best⟩ :=
    (Run.bestPayingBatched crowdedRun (by decide : 1 ≤ 2) room 107 3600).2 ⟨1, x, pooled, ofToken⟩
  obtain ⟨_, read, _⟩ := Batching.assembleYields made
  have ids : (b.transfers.map Transfer.id).map some = [4, 2].map some := by
    rw [← chosen, read, List.map_map, List.map_map]
    rfl
  exact ⟨crowdedRun, by decide, room, b, t, made,
    List.map_injective_iff.2 (Option.some_injective _) ids, best⟩

end Journal

end TokenBridge
