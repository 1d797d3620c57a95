import TokenBridge.Answers
import TokenBridge.Proofs.Escrow.Apart
import TokenBridge.Proofs.Escrow.Exhausted
import Mathlib.Algebra.Order.BigOperators.Group.List
import Mathlib.Algebra.Order.Group.Nat
import Mathlib.Data.List.Perm.Subperm
/-!
What the pool would bring in fees. The totals are kept token by token while the pool is gone through by number, and
batches are taken from the fee queue; both count the same transfers, so a batch of as many transfers as a total counts
collects that total and leaves none of the token behind, as long as the batches of the token have a number left.
-/
namespace TokenBridge

open TokenBridge.Action

variable {s t : Store} {x : Transfer} {xs rest : List Transfer} {token : Address} {b : Batch}
  {height timeout : UInt64}

namespace Transfer

def ofToken (token : Address) (xs : List Transfer) : List Transfer := xs.filter fun x => x.token = token

def fees (xs : List Transfer) : Nat := (xs.map fun x => x.fee.val).sum

theorem ofTokenSnoc : ofToken token (xs ++ [x]) =
    if x.token = token then ofToken token xs ++ [x] else ofToken token xs := by
  rw [ofToken, List.filter_append, ofToken]
  split
  · rename_i same
    rw [List.filter_cons_of_pos (by simpa using same), List.filter_nil]
  · rename_i apart
    rw [List.filter_cons_of_neg (by simpa using apart), List.filter_nil, List.append_nil]

theorem feesSnoc : fees (xs ++ [x]) = fees xs + x.fee.val := by simp [fees]

theorem feesWithin {ys : List Transfer} (h : xs.Sublist ys) : fees xs ≤ fees ys :=
  (h.map _).sum_le_sum fun _ _ => Nat.zero_le _

end Transfer

namespace Answers

variable {table : SortedMap Address FeeTotal}

structure Totals (xs : List Transfer) (table : SortedMap Address FeeTotal) : Prop where
  absent : ∀ token, table.get? token = none ↔ Transfer.ofToken token xs = []
  told : ∀ token f, table.get? token = some f → f.token = token ∧
    f.fees.val = Transfer.fees (Transfer.ofToken token xs) ∧
    f.transfers = UInt64.ofNat (Transfer.ofToken token xs).length

theorem Totals.empty : Totals [] ∅ := ⟨fun _ => ⟨fun _ => rfl, fun _ => rfl⟩, fun _ _ found => nomatch found⟩

theorem countFeeTotals (h : Totals xs table)
    (fits : Transfer.fees (Transfer.ofToken x.token (xs ++ [x])) < Amount.size) :
    ∃ next, countFee table x = .ok next ∧ Totals (xs ++ [x]) next := by
  -- A token that is not in the table yet counts from nothing, as its transfers so far do.
  obtain ⟨before, found, ofToken, fees, transfers⟩ : ∃ before, table.getD x.token ⟨x.token, .zero, 0⟩ = before ∧
      before.token = x.token ∧ before.fees.val = Transfer.fees (Transfer.ofToken x.token xs) ∧
      before.transfers = UInt64.ofNat (Transfer.ofToken x.token xs).length := by
    cases found : table.get? x.token with
    | none =>
      rw [SortedMap.getD, found, (h.absent x.token).1 found]
      exact ⟨_, rfl, rfl, rfl, rfl⟩
    | some f =>
      rw [SortedMap.getD, found]
      exact ⟨f, rfl, h.told x.token f found⟩
  rw [Transfer.ofTokenSnoc, if_pos rfl, Transfer.feesSnoc, ← fees] at fits
  have added : before.fees.add? x.fee = some ⟨before.fees.val + x.fee.val, fits⟩ := dif_pos fits
  refine ⟨table.insert x.token { before with
    fees := ⟨before.fees.val + x.fee.val, fits⟩, transfers := before.transfers + 1 }, ?_, ?_, ?_⟩
  · simp only [countFee, found, added]
  · intro token
    rw [SortedMap.getInsert, Transfer.ofTokenSnoc]
    split
    · simp
    · exact h.absent token
  · intro token f found
    rw [SortedMap.getInsert] at found
    rw [Transfer.ofTokenSnoc]
    split at found
    · rename_i same
      subst same
      cases found
      rw [if_pos rfl, Transfer.feesSnoc, ← fees, List.length_append, transfers, UInt64.ofNat_add]
      exact ⟨ofToken, rfl, rfl⟩
    · rename_i apart
      rw [if_neg apart]
      exact h.told token f found

theorem countFeesTotals (rest : List Transfer) (h : Totals xs table)
    (fits : ∀ token, Transfer.fees (Transfer.ofToken token (xs ++ rest)) < Amount.size) :
    ∃ last, rest.foldlM countFee table = .ok last ∧ Totals (xs ++ rest) last := by
  induction rest generalizing xs table with
  | nil => exact ⟨table, rfl, by rwa [List.append_nil]⟩
  | cons x rest ih =>
    have split : xs ++ x :: rest = xs ++ [x] ++ rest := List.append_cons ..
    rw [split] at fits ⊢
    have within : (Transfer.ofToken x.token (xs ++ [x])).Sublist (Transfer.ofToken x.token (xs ++ [x] ++ rest)) :=
      (List.sublist_append_left ..).filter _
    obtain ⟨next, counted, totals⟩ := countFeeTotals h (Nat.lt_of_le_of_lt (Transfer.feesWithin within) (fits x.token))
    obtain ⟨last, more, all⟩ := ih totals fits
    refine ⟨last, ?_, all⟩
    rw [List.foldlM_cons, counted]
    exact more

theorem Totals.inside (h : Totals xs table) {f : FeeTotal} (listed : f ∈ table.values) :
    table.get? f.token = some f := by
  obtain ⟨token, found⟩ := SortedMap.memValues.1 listed
  rwa [(h.told token f found).1]

theorem Totals.listed (h : Totals s.pool.values table) :
    (∃ f, table.get? token = some f) ↔ ∃ id x, s.pool.get? id = some x ∧ x.token = token := by
  rw [← Option.ne_none_iff_exists', Ne, h.absent, Transfer.ofToken, List.filter_eq_nil_iff]
  simp only [SortedMap.memValues, decide_eq_true_eq, not_forall, not_not]
  exact ⟨fun ⟨x, ⟨id, found⟩, same⟩ => ⟨id, x, found, same⟩, fun ⟨id, x, found, same⟩ => ⟨x, ⟨id, found⟩, same⟩⟩

theorem Totals.tokens (h : Totals xs table) : table.values.map FeeTotal.token = table.keys :=
  SortedMap.keysOfValues fun token f found => (h.told token f found).1

theorem batchFeesTotals (fits : ∀ token, Transfer.fees (Transfer.ofToken token s.pool.values) < Amount.size) :
    ∃ table, batchFees s = .ok table.values ∧ Totals s.pool.values table := by
  obtain ⟨table, counted, totals⟩ := countFeesTotals s.pool.values .empty fits
  refine ⟨table, ?_, totals⟩
  rw [batchFees, counted]
  rfl

end Answers

namespace Batching

theorem memOfToken (h : Pool.Indexed s) {id : UInt64} (found : s.pool.get? id = some x) (same : x.token = token) :
    x ∈ Transfer.ofToken token s.pool.values :=
  List.mem_filter.2 ⟨(h.getIff.1 found).1, by simpa using same⟩

theorem assembleAll (h : Holding s) (some : ∃ id x, s.pool.get? id = some x ∧ x.token = token)
    (room : (s.lastBatch.getD token 0).toNat < UInt64.size - 1) (height timeout : UInt64) :
    ∃ b t, Yields (assemble token (Transfer.ofToken token s.pool.values).length height timeout) s b t ∧
      b.transfers.Perm (Transfer.ofToken token s.pool.values) ∧
      ∀ id x, t.pool.get? id = .some x → x.token ≠ token := by
  obtain ⟨id, x, found, same⟩ := some
  have positive : 1 ≤ (Transfer.ofToken token s.pool.values).length :=
    List.length_pos_of_mem (memOfToken h.indexed found same)
  obtain ⟨b, t, made, _, _, best⟩ := assembleBest h positive room height timeout ⟨id, x, found, same⟩
  obtain ⟨ordered, perm, _, first⟩ := best.first
  have all : b.transfers = ordered := by
    rw [first]
    exact List.take_of_length_le (Nat.le_of_eq perm.length_eq)
  refine ⟨b, t, made, all ▸ perm, fun k y left ofToken => ?_⟩
  obtain ⟨there, spared⟩ := (best.pool k y).1 left
  exact spared (all ▸ perm.mem_iff.2 (memOfToken h.indexed there ofToken))

theorem assembleStopped (h : Holding s) (some : ∃ id x, s.pool.get? id = some x ∧ x.token = token)
    (used : (s.lastBatch.getD token 0).toNat = UInt64.size - 1) {limit : Nat} (positive : 1 ≤ limit)
    (height timeout : UInt64) : ∃ t, Halts (assemble token limit height timeout) s .overflow t := by
  obtain ⟨id, x, found, same⟩ := some
  have last : Counter.next? (s.lastBatch.getD token 0) = none := if_neg (by rw [used]; decide)
  have queued : x ∈ Pool.queued s token := (Pool.memQueued h.indexed).2 ⟨h.indexed.keyed id x found ▸ found, same⟩
  refine ⟨_, assembleExhausted h.indexed last ?_⟩
  rw [Ne, List.take_eq_nil_iff, not_or]
  exact ⟨Nat.one_le_iff_ne_zero.1 positive, List.ne_nil_of_mem queued⟩

end Batching

namespace Journal

variable {j : Journal}

theorem Run.poolCounted (run : Run j) : j.store.pool.values.length ≤ j.store.lastTransfer.toNat := by
  have accounted := run.accounted
  have distinct : (j.store.pool.values.map fun x => x.id.toNat).Nodup := by
    have ids := (List.nodup_append.1 (List.map_append ▸ accounted.holding.distinct)).1
    have numbers := ids.map fun (a b : UInt64) same => UInt64.toNat_inj.1 same
    rwa [List.map_map] at numbers
  have numbered : (j.store.pool.values.map fun x => x.id.toNat) ⊆ List.range' 1 j.store.lastTransfer.toNat := by
    intro n listed
    obtain ⟨x, pooled, rfl⟩ := List.mem_map.1 listed
    have bounds := accounted.enteredNumber (accounted.heldEntered (List.mem_append_left _ pooled))
    rw [List.mem_range'_1]
    omega
  have few := (distinct.subperm numbered).length_le
  rwa [List.length_map, List.length_range'] at few

theorem Run.feesAnswered (run : Run j)
    (fits : ∀ token, Transfer.fees (Transfer.ofToken token j.store.pool.values) < Amount.size) :
    ∃ table, Answers.batchFees j.store = .ok table.values ∧ Answers.Totals j.store.pool.values table ∧
      ∀ f ∈ table.values, f.transfers.toNat = (Transfer.ofToken f.token j.store.pool.values).length ∧
        f.fees.val = Transfer.fees (Transfer.ofToken f.token j.store.pool.values) := by
  obtain ⟨table, answered, totals⟩ := Answers.batchFeesTotals fits
  refine ⟨table, answered, totals, fun f inside => ?_⟩
  obtain ⟨token, found⟩ := SortedMap.memValues.1 inside
  obtain ⟨rfl, fees, transfers⟩ := totals.told token f found
  have few : (Transfer.ofToken f.token j.store.pool.values).length ≤ j.store.lastTransfer.toNat :=
    Nat.le_trans (List.length_filter_le ..) run.poolCounted
  refine ⟨?_, fees⟩
  rw [transfers]
  exact UInt64.toNat_ofNat_of_lt' (Nat.lt_of_le_of_lt few (UInt64.toNat_lt _))

/-- The fees of just the tokens in the pool are told, and a batch of as many transfers as are counted collects them
and leaves none, while the batches of the token have a number left. -/
theorem Run.feesCollected (run : Run j)
    (fits : ∀ token, Transfer.fees (Transfer.ofToken token j.store.pool.values) < Amount.size) :
    ∃ listed, Answers.batchFees j.store = .ok listed ∧
      (listed.map Answers.FeeTotal.token).Pairwise (fun a b => Key.before a b = true) ∧
      (∀ token, token ∈ listed.map Answers.FeeTotal.token ↔
        ∃ id x, j.store.pool.get? id = some x ∧ x.token = token) ∧
      ∀ f ∈ listed,
        f.transfers.toNat = (Transfer.ofToken f.token j.store.pool.values).length ∧
        f.fees.val = Transfer.fees (Transfer.ofToken f.token j.store.pool.values) ∧
        ((j.store.lastBatch.getD f.token 0).toNat < UInt64.size - 1 → ∀ height timeout,
          ∃ b t, Yields (Batching.assemble f.token f.transfers.toNat height timeout) j.store b t ∧
            Transfer.fees b.transfers = f.fees.val ∧ ∀ id x, t.pool.get? id = some x → x.token ≠ f.token) := by
  obtain ⟨table, answered, totals, exact⟩ := run.feesAnswered fits
  refine ⟨table.values, answered, ?_, fun token => ?_, fun f inside => ?_⟩
  · rw [totals.tokens]
    exact List.pairwise_map.2 table.ascending
  · rw [totals.tokens, SortedMap.memKeys, totals.listed]
  · obtain ⟨count, fees⟩ := exact f inside
    refine ⟨count, fees, fun room height timeout => ?_⟩
    have waits := totals.listed.1 ⟨f, totals.inside inside⟩
    obtain ⟨b, t, made, perm, spent⟩ := Batching.assembleAll run.accounted.holding waits room height timeout
    have collected : Transfer.fees b.transfers = f.fees.val := by
      rw [fees]
      exact (perm.map _).sum_eq
    rw [count]
    exact ⟨b, t, made, collected, spent⟩

def mingled : Journal := twiceWaiting.deliver ⟨113, 14⟩ (withdrawal "alice" (.small 20) (.small 5))

theorem mingledFees :
    Transfer.fees mingled.store.pool.values < Amount.size ∧
    (Answers.batchFees mingled.store).toOption.map (List.map fun f =>
      (f.transfers, f.fees.val, mingled.store.lastBatch.getD f.token 0)) = some [(2, 7, 2), (1, 0, 0)] := by
  decide +kernel

theorem mingledCollected :
    Run mingled ∧
    (∀ token, Transfer.fees (Transfer.ofToken token mingled.store.pool.values) < Amount.size) ∧
    ∃ listed, Answers.batchFees mingled.store = .ok listed ∧
      (listed.map fun f => (f.transfers, f.fees.val, mingled.store.lastBatch.getD f.token 0)) =
        [(2, 7, 2), (1, 0, 0)] ∧
      ∀ f ∈ listed, ∃ b t, Yields (Batching.assemble f.token f.transfers.toNat 114 7200) mingled.store b t ∧
        Transfer.fees b.transfers = f.fees.val := by
  have run : Run mingled := .order (.order (.order halfBatchedRun _ _ rfl) _ _ rfl) _ _ rfl
  obtain ⟨total, told⟩ := mingledFees
  have fits : ∀ token, Transfer.fees (Transfer.ofToken token mingled.store.pool.values) < Amount.size := fun _ =>
    Nat.lt_of_le_of_lt (Transfer.feesWithin List.filter_sublist) total
  obtain ⟨listed, answered, _, _, each⟩ := Run.feesCollected run fits
  rw [answered] at told
  have entries := Option.some.inj told
  refine ⟨run, fits, listed, answered, entries, fun f inside => ?_⟩
  have here := entries ▸ List.mem_map_of_mem inside
  simp only [List.mem_cons, List.not_mem_nil, or_false, Prod.mk.injEq] at here
  have room : (mingled.store.lastBatch.getD f.token 0).toNat < UInt64.size - 1 := by
    rcases here with ⟨_, _, number⟩ | ⟨_, _, number⟩ <;> rw [number] <;> decide
  obtain ⟨b, t, made, fees, _⟩ := (each f inside).2.2 room 114 7200
  exact ⟨b, t, made, fees⟩

theorem unnumberedUncollected :
    ∃ j, Run j ∧ (∀ token, Transfer.fees (Transfer.ofToken token j.store.pool.values) < Amount.size) ∧
      ∃ listed, Answers.batchFees j.store = .ok listed ∧ ∃ f ∈ listed, f.transfers.toNat = 1 ∧
        ∀ height timeout,
          ¬ ∃ b t, Yields (Batching.assemble f.token f.transfers.toNat height timeout) j.store b t := by
  obtain ⟨j, stocked, used⟩ := exhausted
  obtain ⟨x, only⟩ := List.length_eq_one_iff.1 stocked.waiting
  obtain ⟨ofToken, cheap⟩ := stocked.cheap x (only ▸ List.mem_singleton_self x)
  have total : Transfer.fees j.store.pool.values < Amount.size := by
    rw [only, Transfer.fees, List.map_singleton, List.sum_singleton]
    exact Nat.lt_of_le_of_lt cheap (by decide)
  have fits : ∀ token, Transfer.fees (Transfer.ofToken token j.store.pool.values) < Amount.size := fun _ =>
    Nat.lt_of_le_of_lt (Transfer.feesWithin List.filter_sublist) total
  obtain ⟨table, answered, totals, exact⟩ := stocked.run.feesAnswered fits
  have waits : ∃ id x, j.store.pool.get? id = some x ∧ x.token = .zero := by
    obtain ⟨id, found⟩ := SortedMap.memValues.1 (only ▸ List.mem_singleton_self x)
    exact ⟨id, x, found, ofToken⟩
  obtain ⟨f, found⟩ := totals.listed.2 waits
  obtain ⟨token, _, _⟩ := totals.told _ f found
  have inside : f ∈ table.values := SortedMap.memValues.2 ⟨_, found⟩
  have one : f.transfers.toNat = 1 := by
    rw [(exact f inside).1, token, only, Transfer.ofToken, List.filter_cons_of_pos (by simpa using ofToken)]
    rfl
  refine ⟨j, stocked.run, fits, table.values, answered, f, inside, one, fun height timeout => ?_⟩
  rw [token, one]
  rintro ⟨b, t, made⟩
  obtain ⟨_, stopped⟩ := Batching.assembleStopped stocked.run.accounted.holding waits used (Nat.le_refl 1) height timeout
  exact made.unhalted stopped

end Journal

end TokenBridge
