import TokenBridge.Proofs.Escrow.BestPaying
import TokenBridge.Proofs.Escrow.Executed
/-!
Runs that use up the numbers of a token's batches while a transfer of it waits. A batch that is dissolved gives its
transfers back and keeps its number; from then on one order and one batch a round reach the last number of the
batches before the transfers are out of theirs.
-/
namespace TokenBridge

open TokenBridge.Action

structure Store.Serves (s : Store) : Prop where
  config : ∃ c ∈ s.config, c.paused = false ∧ 1 ≤ c.maxBatchSize.toNat ∧
    Pool.amountAfterFee c (.small 1) .zero = .ok (.small 1)
  paired : s.tokenOf.get? "atom" = some .zero
  height : s.ethHeight ≠ 0

namespace Journal

variable {j : Journal} {n : Nat}

def orderOne (j : Journal) : Journal := j.deliver ⟨120, 21⟩ (withdrawal "alice" (.small 1) .zero)

def batchOne (j : Journal) : Journal := j.deliver ⟨121, 22⟩ stacked.request

theorem orderOneStore (serves : j.store.Serves) {id : UInt64} (next : Counter.next? j.store.lastTransfer = some id) :
    ∃ x : Transfer, x.id = id ∧ x.token = .zero ∧ x.fee = .zero ∧
      j.orderOne.store = Pool.add x { j.store with lastTransfer := id } := by
  obtain ⟨c, configured, running, _, afterFee⟩ := serves.config
  have paired : j.store.tokenOf.get? (Asset.native "atom").key = some .zero := serves.paired
  obtain ⟨destination, parsed⟩ : ∃ d, Address.parse "0x0000000000000000000000000000000000000002" = .ok d := ⟨_, rfl⟩
  obtain ⟨x, entered, number, ofToken, free⟩ : ∃ x, Yields (Pool.enqueue ⟨"alice"⟩ (.native "atom") (.small 1)
      "0x0000000000000000000000000000000000000002" .zero) j.store x (Pool.add x { j.store with lastTransfer := id }) ∧
      x.id = id ∧ x.token = .zero ∧ x.fee = .zero :=
    ⟨_, Pool.enqueueMade configured running parsed paired afterFee next, rfl, rfl, rfl⟩
  have sent : Yields (Chain.action ⟨120, 21⟩ (withdrawal "alice" (.small 1) .zero)) j.store
      (Pool.receipt "send_to_eth" x) (Pool.add x { j.store with lastTransfer := id }) :=
    yieldsBind.2 ⟨x, _, entered, yieldsPure.2 ⟨rfl, rfl⟩⟩
  refine ⟨x, number, ofToken, free, ?_⟩
  rw [orderOne, deliverYields sent]

theorem batchOneStore (serves : j.store.Serves) (holding : Holding j.store)
    (room : (j.store.lastBatch.getD .zero 0).toNat < UInt64.size - 1)
    (waits : ∃ id x, j.store.pool.get? id = some x ∧ x.token = .zero) :
    ∃ b, Batching.TakesBest .zero 1 j.store b j.batchOne.store ∧
      j.store.pool.values.Perm (b.transfers ++ j.batchOne.store.pool.values) := by
  obtain ⟨c, configured, running, sized, _⟩ := serves.config
  have parsed : Address.parse "0x0000000000000000000000000000000000000000" = .ok .zero := by decide
  have limited : min ((some (1 : UInt32)).getD c.maxBatchSize).toNat c.maxBatchSize.toNat = 1 := Nat.min_eq_left sized
  obtain ⟨b, t, made, _, _, best⟩ := Batching.assembleBest holding (Nat.le_refl 1) room 121
    (Counter.cappedAdd j.store.ethHeight c.batchTimeoutBlocks) waits
  obtain ⟨r, requested⟩ : ∃ r, Yields (Chain.action ⟨121, 22⟩ stacked.request) j.store r t :=
    Batching.requestMade configured running parsed limited (Nat.le_refl 1) serves.height made
  have stored : j.batchOne.store = t := by rw [batchOne, deliverYields requested]
  rw [stored]
  exact ⟨b, best, (Batching.assembleTaken holding.indexed made).2⟩

structure Stocked (n : Nat) (j : Journal) : Prop where
  run : Run j
  serves : j.store.Serves
  waiting : j.store.pool.values.length = n
  cheap : ∀ x ∈ j.store.pool.values, x.token = .zero ∧ x.fee.val ≤ 7

theorem Stocked.orderOne (h : Stocked n j) (room : j.store.lastTransfer.toNat < UInt64.size - 1) :
    Stocked (n + 1) j.orderOne ∧ j.orderOne.store.lastTransfer.toNat = j.store.lastTransfer.toNat + 1 ∧
      j.orderOne.store.lastBatch = j.store.lastBatch := by
  obtain ⟨id, next⟩ := Counter.nextRoom room
  obtain ⟨x, rfl, ofToken, free, entered⟩ := orderOneStore h.serves next
  have fresh : j.store.pool.get? x.id = none := Pool.numberFresh h.run.accounted.holding next
  have pooled : j.orderOne.store.pool.values.Perm (x :: j.store.pool.values) := by
    rw [entered]
    exact SortedMap.valuesInsert fresh
  refine ⟨⟨.order h.run _ _ rfl, ?serves, ?waiting, fun y inside => ?cheap⟩, ?last, ?batches⟩
  case serves =>
    rw [entered]
    exact ⟨h.serves.config, h.serves.paired, h.serves.height⟩
  case waiting => rw [pooled.length_eq, List.length_cons, h.waiting]
  case cheap =>
    rcases List.mem_cons.1 (pooled.subset inside) with rfl | old
    · exact ⟨ofToken, free ▸ by decide⟩
    · exact h.cheap y old
  case last =>
    rw [entered]
    exact Counter.nextVal next
  case batches =>
    rw [entered]
    rfl

theorem Stocked.batchOne (h : Stocked (n + 1) j) (room : (j.store.lastBatch.getD .zero 0).toNat < UInt64.size - 1) :
    Stocked n j.batchOne ∧ j.batchOne.store.lastTransfer = j.store.lastTransfer ∧
      (j.batchOne.store.lastBatch.getD .zero 0).toNat = (j.store.lastBatch.getD .zero 0).toNat + 1 := by
  obtain ⟨x, inside⟩ := List.exists_mem_of_length_eq_add_one h.waiting
  obtain ⟨id, found⟩ := SortedMap.memValues.1 inside
  obtain ⟨b, best, taken⟩ := batchOneStore h.serves h.run.accounted.holding room ⟨id, x, found, (h.cheap x inside).1⟩
  refine ⟨⟨.order h.run _ _ rfl, ?serves, ?waiting, fun y left => ?cheap⟩, ?last, ?batches⟩
  case serves =>
    rw [best.after]
    exact ⟨h.serves.config, h.serves.paired, h.serves.height⟩
  case waiting =>
    obtain ⟨_, _, _, first⟩ := best.first
    have few : b.transfers.length ≤ 1 := first ▸ List.length_take_le ..
    have some : 0 < b.transfers.length := List.length_pos_iff.2 best.filled
    have total := taken.length_eq
    rw [h.waiting, List.length_append] at total
    omega
  case cheap => exact h.cheap y (taken.symm.subset (List.mem_append_right _ left))
  case last => rw [best.after]
  case batches => rw [best.after, SortedMap.getD, SortedMap.getInsertSelf, Option.getD_some, best.nonce]

/-- While the transfers have not used up more numbers than the batches, each round has one for either. -/
theorem Stocked.rounds (h : Stocked 1 j)
    (numbers : j.store.lastTransfer.toNat ≤ (j.store.lastBatch.getD .zero 0).toNat) (n : Nat)
    (room : (j.store.lastBatch.getD .zero 0).toNat + n < UInt64.size) :
    ∃ k, Stocked 1 k ∧ k.store.lastTransfer.toNat ≤ (k.store.lastBatch.getD .zero 0).toNat ∧
      (k.store.lastBatch.getD .zero 0).toNat = (j.store.lastBatch.getD .zero 0).toNat + n := by
  induction n with
  | zero => exact ⟨j, h, numbers, rfl⟩
  | succ n ih =>
    obtain ⟨k, stocked, ahead, number⟩ := ih (by omega)
    obtain ⟨two, transfer, kept⟩ := stocked.orderOne (by omega)
    obtain ⟨one, kept', batch⟩ := two.batchOne (by rw [kept]; omega)
    rw [kept] at batch
    rw [← kept'] at transfer
    exact ⟨_, one, by omega, by omega⟩

/-- The second batch is executed, so that the transfer of the first waits again. -/
def returned : Journal :=
  stacked.deliver ⟨111, 12⟩ (.execute ⟨⟨"orch"⟩, []⟩ (.submitClaim ⟨2, 60, .batchExecuted 2 .zero⟩))

theorem returnedStore :
    (∃ c ∈ returned.store.config, c.paused = false ∧ 1 ≤ c.maxBatchSize.toNat ∧
      Pool.amountAfterFee c (.small 1) .zero = .ok (.small 1)) ∧
    returned.store.tokenOf.get? "atom" = some .zero ∧ returned.store.ethHeight ≠ 0 ∧
    returned.store.lastTransfer.toNat = 3 ∧ (returned.store.lastBatch.getD .zero 0).toNat = 3 ∧
    returned.store.pool.values.length = 1 ∧
    ∀ x ∈ returned.store.pool.values, x.token = .zero ∧ x.fee.val ≤ 7 := by
  decide +kernel

theorem exhausted : ∃ j, Stocked 1 j ∧ (j.store.lastBatch.getD .zero 0).toNat = UInt64.size - 1 := by
  obtain ⟨config, paired, height, transfers, batches, waiting, cheap⟩ := returnedStore
  have stocked : Stocked 1 returned := ⟨.order stackedRun _ _ rfl, ⟨config, paired, height⟩, waiting, cheap⟩
  obtain ⟨j, stocked, _, number⟩ := stocked.rounds (Nat.le_of_eq (transfers.trans batches.symm)) (UInt64.size - 4)
    (by rw [batches]; decide)
  refine ⟨j, stocked, ?_⟩
  rw [number, batches]
  decide

end Journal

end TokenBridge
