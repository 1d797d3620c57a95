import TokenBridge.Proofs.Escrow.Accounts
/-!
The shape of pool and batches over a run. The fee queue lists what the pool lists, a batch has a number that was given
out and is never empty, and each transfer is held once, under a number that was given out.
-/
namespace TokenBridge

open TokenBridge.Action

variable {s t u : Store} {block : Block} {r : Response} {order : Order} {x : Transfer}

namespace Batching

def Filled (s : Store) : Prop :=
  ∀ k n b, s.batches.get? (k, n) = some b → 1 ≤ n.toNat ∧ b.transfers ≠ []

theorem Filled.empty : Filled .empty := fun _ _ _ found => (nomatch found)

theorem FewerBatches.trans (h : FewerBatches s t) (h' : FewerBatches t u) : FewerBatches s u :=
  fun k b found => h k b (h' k b found)

theorem FewerBatches.filled (fewer : FewerBatches s t) (h : Filled s) : Filled t :=
  fun k n b found => h k n b (fewer (k, n) b found)

theorem assembleFilled {token : Address} {limit : Nat} {height timeout : UInt64} {b : Batch} (h : Filled s)
    (made : Yields (assemble token limit height timeout) s b t) : Filled t := by
  obtain ⟨nonempty, read, _, _, _, next, rfl⟩ := assembleYields made
  obtain ⟨_, _, removed⟩ := Pool.removeAllKeeps b.transfers s
  rw [removed] at next ⊢
  intro k n c found
  rw [SortedMap.getInsert] at found
  split at found
  · rename_i same
    cases same
    cases found
    refine ⟨?_, fun empty => nonempty ?_⟩
    · rw [Counter.nextVal next]
      exact Nat.le_add_left ..
    · rw [empty] at read
      exact List.map_eq_nil_iff.1 read
  · exact h k n c found

end Batching

theorem PoolMoved.lastBatch (h : PoolMoved s t) : t.lastBatch = s.lastBatch := by
  obtain ⟨_, _, _, _, rfl⟩ := h
  rfl

theorem Observing.passLastBatch {view : StakeView} {os : List Observation}
    (pass : Pass view block s os t) : t.lastBatch = s.lastBatch := by
  obtain ⟨_, _, _, _, _, _, _, _, _, _, moved, rfl⟩ := passMoves pass
  exact moved.lastBatch

theorem EscrowKept.fewer (h : EscrowKept s t) : Batching.FewerBatches s t := fun _ _ found =>
  h.batches ▸ found

theorem Movement.batches (holding : Holding s) (moved : Movement block s order r t) :
    (Batching.FewerBatches s t ∧ t.lastBatch = s.lastBatch) ∨
      ∃ token limit height timeout b, Yields (Batching.assemble token limit height timeout) s b t := by
  cases moved with
  | administered _ _ moved => exact .inl ⟨moved.escrow.fewer, moved.escrow.lastBatch⟩
  | reported _ after =>
    have kept := (Directory.reportMoves order.reports s).escrow
    rw [← after] at kept
    exact .inl ⟨kept.fewer, kept.lastBatch⟩
  | entered _ _ _ _ _ _ after =>
    rw [after]
    exact .inl ⟨fun _ _ found => found, rfl⟩
  | cancelled _ _ _ _ _ _ after =>
    rw [after]
    exact .inl ⟨fun _ _ found => found, rfl⟩
  | assembled _ _ made => exact .inr ⟨_, _, _, _, _, made⟩
  | registered _ _ _ after =>
    obtain ⟨_, unparked⟩ := Registry.unparkAllMoves _ _ _
    rw [after, unparked]
    exact .inl ⟨fun _ _ found => found, rfl⟩
  | @observed u v w os dissolved _ _ voted pass returned moved =>
    have marked := voted.escrow.exchanged holding
    obtain ⟨passed, fewer, _⟩ := Observing.passExchanged marked.holding pass voted.escrow.fewer
    have back := (Batching.dissolvesExchanged passed.holding returned).2
    refine .inl ⟨fewer.trans (back.trans moved.escrow.fewer), ?_⟩
    rw [moved.escrow.lastBatch, (Batching.dissolvesMove returned).lastBatch,
      Observing.passLastBatch pass, voted.escrow.lastBatch]

theorem Movement.filled (holding : Holding s) (h : Batching.Filled s)
    (moved : Movement block s order r t) : Batching.Filled t := by
  rcases moved.batches holding with ⟨fewer, _⟩ | ⟨_, _, _, _, _, made⟩
  · exact fewer.filled h
  · exact Batching.assembleFilled h made

theorem Pool.Indexed.queuedIff (h : Pool.Indexed s) {token : Address} {headroom : Amount} {id : UInt64} :
    s.feeQueue.get? (token, headroom, id) = some () ↔
      ∃ x, s.pool.get? id = some x ∧ x.token = token ∧ headroom.val = Amount.size - 1 - x.fee.val := by
  rw [h.queued]
  constructor
  · rintro ⟨x, pooled, place⟩
    obtain ⟨rfl, rest⟩ := Prod.mk.inj place
    obtain ⟨rfl, rfl⟩ := Prod.mk.inj rest
    exact ⟨x, pooled, rfl, rfl⟩
  · rintro ⟨x, pooled, rfl, distance⟩
    have number := h.keyed id x pooled
    subst number
    have same : x.fee.headroom = headroom := Amount.ext distance.symm
    exact ⟨x, pooled, by rw [← same, Pool.place]⟩

namespace Journal

variable {j : Journal}

namespace Accounted

theorem heldEntered (h : Accounted j) (held : x ∈ j.store.held) : x ∈ j.entered :=
  h.balance.subset (List.mem_append_right _ held)

theorem enteredNumber (h : Accounted j) (entered : x ∈ j.entered) :
    1 ≤ x.id.toNat ∧ x.id.toNat ≤ j.store.lastTransfer.toNat := by
  have numbered := List.mem_map_of_mem (f := fun x => x.id.toNat) entered
  rw [h.numbers, List.mem_range'_1] at numbered
  omega

theorem enteredWorth (h : Accounted j) (entered : x ∈ j.entered) :
    0 < x.amount.val ∧ x.amount.val + x.fee.val < Amount.size := by
  obtain ⟨d, done, enters⟩ := List.mem_flatMap.1 entered
  cases entersFor : d.order.entersFor? with
  | none => simp [Deed.enters, entersFor] at enters
  | some sender =>
    obtain ⟨y, _, sent, fee, _, single, _, facts, _⟩ := (h.booked d done).sound.takesIn sender entersFor
    rw [single] at enters
    obtain rfl := List.mem_singleton.1 enters
    refine ⟨facts.positive, ?_⟩
    rw [facts.covered]
    exact sent.bound

end Accounted

theorem Run.filled (run : Run j) : Batching.Filled j.store := by
  refine Run.keeps ?setUp ?deed run
  case setUp =>
    intro _ _ _ _ yields
    exact (Contract.setUpEscrow yields).1.fewer.filled .empty
  case deed =>
    intro j block order r t past filled later yields
    exact (Chain.laterMovement later yields).filled past.accounted.holding filled

/-- The fee queue lists the pooled transfers, each at its token and the distance of its fee from the largest; batches
are filed by token and number, of one token and never empty; and a transfer is held in one place. -/
theorem Run.heldInShape (run : Run j) :
    (∀ token headroom id, j.store.feeQueue.get? (token, headroom, id) = some () ↔
      ∃ x, j.store.pool.get? id = some x ∧ x.token = token ∧
        headroom.val = Amount.size - 1 - x.fee.val) ∧
    (∀ id x, j.store.pool.get? id = some x → x.id = id) ∧
    (∀ token n b, j.store.batches.get? (token, n) = some b →
      b.token = token ∧ b.nonce = n ∧ 1 ≤ n.toNat ∧
      n.toNat ≤ (j.store.lastBatch.getD token 0).toNat ∧ b.transfers ≠ [] ∧
      ∀ x ∈ b.transfers, x.token = token) ∧
    ((j.store.pool.values ++ j.store.batched).map Transfer.id).Nodup ∧
    ∀ x ∈ j.store.pool.values ++ j.store.batched,
      1 ≤ x.id.toNat ∧ x.id.toNat ≤ j.store.lastTransfer.toNat ∧
      0 < x.amount.val ∧ x.amount.val + x.fee.val < Amount.size := by
  have accounted := run.accounted
  obtain ⟨indexed, filed, distinct, _, _⟩ := accounted.holding
  refine ⟨fun _ _ _ => indexed.queuedIff, indexed.keyed, ?batches, distinct, ?transfers⟩
  case batches =>
    intro token n b found
    obtain ⟨ofToken, numbered⟩ := filed.keyed token n b found
    obtain ⟨fromOne, nonempty⟩ := run.filled token n b found
    exact ⟨ofToken, numbered, fromOne, filed.numbered token n b found, nonempty,
      filed.oneToken token n b found⟩
  case transfers =>
    intro x held
    have entered := accounted.heldEntered held
    obtain ⟨fromOne, upTo⟩ := accounted.enteredNumber entered
    exact ⟨fromOne, upTo, accounted.enteredWorth entered⟩

def halfBatched : Journal :=
  traded.deliverAll
    [(⟨109, 10⟩, .execute ⟨⟨"carol"⟩, []⟩
        (.requestBatch "0x0000000000000000000000000000000000000000" none)),
      (⟨110, 11⟩, withdrawal "bob" (.small 20) (.small 2))]

theorem halfBatchedRun : Run halfBatched := tradedRun.deliverAll (by decide)

theorem halfBatchedInShape :
    Run halfBatched ∧
    (∃ x headroom, halfBatched.store.pool.get? 4 = some x ∧
      halfBatched.store.feeQueue.get? (x.token, headroom, 4) = some () ∧
      headroom.val + x.fee.val + 1 = Amount.size) ∧
    ∃ b, halfBatched.store.batches.get? (.zero, 2) = some b ∧ b.nonce = 2 ∧
      ∃ y ∈ b.transfers, y.token = .zero ∧ 1 ≤ y.id.toNat ∧ y.amount.val + y.fee.val < Amount.size := by
  obtain ⟨queued, _, batches, _, worth⟩ := Run.heldInShape halfBatchedRun
  have stored : (halfBatched.store.pool.get? 4).isSome = true ∧
      (halfBatched.store.batches.get? (.zero, 2)).isSome = true := by
    decide +kernel
  obtain ⟨x, pooled⟩ := Option.isSome_iff_exists.1 stored.1
  obtain ⟨b, found⟩ := Option.isSome_iff_exists.1 stored.2
  obtain ⟨_, numbered, _, _, nonempty, oneToken⟩ := batches .zero 2 b found
  obtain ⟨y, inside⟩ := List.exists_mem_of_ne_nil _ nonempty
  have held : y ∈ halfBatched.store.pool.values ++ halfBatched.store.batched :=
    List.mem_append_right _ (Batching.memBatched found inside)
  obtain ⟨fromOne, _, _, inRange⟩ := worth y held
  refine ⟨halfBatchedRun, ⟨x, x.fee.headroom, pooled, ?_, ?_⟩, b, found, numbered, y, inside,
    oneToken y inside, fromOne, inRange⟩
  · exact (queued x.token x.fee.headroom 4).2 ⟨x, pooled, rfl, rfl⟩
  · have below := x.fee.bound
    rw [Amount.headroom]
    dsimp only
    omega

end Journal

end TokenBridge
