import TokenBridge.Proofs.Deposits.Pairings
import TokenBridge.Proofs.Observation.Completion
/-!
What the execution of a batch leaves. It and all older batches of its token are gone with their confirmations, the
transfers of the older ones are back in the pool and its own are out of escrow, locked here or burned; newer batches
and other tokens are untouched.
-/
namespace TokenBridge

open TokenBridge.Action

variable {s t u : Store} {block : Block} {x : Transfer} {b : Batch} {token : Address} {nonce : UInt64}
  {nonces : List UInt64} {messages : List LedgerMessage}

namespace Batching

structure Dissolved (token : Address) (nonces : List UInt64) (s t : Store) : Prop where
  batches : ∀ k c, t.batches.get? k = some c ↔ s.batches.get? k = some c ∧ ¬ (k.1 = token ∧ k.2 ∈ nonces)
  confirmations : ∀ k c, t.batchConfirmations.get? k = some c ↔
    s.batchConfirmations.get? k = some c ∧ ¬ (k.1 = token ∧ k.2.1 ∈ nonces)
  pool : ∀ x, x ∈ t.pool.values ↔
    x ∈ s.pool.values ∨ ∃ n ∈ nonces, ∃ c, s.batches.get? (token, n) = some c ∧ x ∈ c.transfers

theorem dissolveDissolved {v : PUnit} (h : Holding s) (done : Yields (dissolve token nonce) s v t) :
    Dissolved token [nonce] s t := by
  obtain ⟨b, found, rfl⟩ := dissolveYields done
  have listed := (Pool.addAllPool h.indexed (h.batchApart found)).2
  obtain ⟨pool, _, added⟩ := Pool.addAllKeeps b.transfers s
  rw [added] at listed ⊢
  constructor
  case batches =>
    intro k c
    rw [discardBatches, List.mem_singleton]
  case confirmations =>
    intro k c
    rw [discardConfirmations, List.mem_singleton]
  case pool =>
    intro x
    have back : x ∈ pool.values ↔ x ∈ b.transfers ++ s.pool.values := listed.mem_iff
    show x ∈ pool.values ↔ _
    rw [back, List.mem_append, or_comm]
    simp [found]

theorem Dissolved.trans {later : List UInt64} (h : Dissolved token nonces s t) (h' : Dissolved token later t u) :
    Dissolved token (nonces ++ later) s u := by
  constructor
  case batches =>
    intro k c
    rw [h'.batches, h.batches, List.mem_append, and_or_left, not_or, and_assoc]
  case confirmations =>
    intro k c
    rw [h'.confirmations, h.confirmations, List.mem_append, and_or_left, not_or, and_assoc]
  case pool =>
    intro x
    simp only [h'.pool, h.pool, h.batches, List.mem_append, true_and]
    constructor
    · rintro ((here | ⟨n, first, c, found, inside⟩) | ⟨n, last, c, ⟨found, _⟩, inside⟩)
      · exact .inl here
      · exact .inr ⟨n, .inl first, c, found, inside⟩
      · exact .inr ⟨n, .inr last, c, found, inside⟩
    · rintro (here | ⟨n, _ | last, c, found, inside⟩)
      · exact .inl (.inl here)
      · exact .inl (.inr ⟨n, ‹_›, c, found, inside⟩)
      · -- A number among both was dissolved the first time.
        by_cases first : n ∈ nonces
        · exact .inl (.inr ⟨n, first, c, found, inside⟩)
        · exact .inr ⟨n, last, c, ⟨found, first⟩, inside⟩

theorem dissolvesDissolved {v : PUnit} (h : Holding s) (done : Yields (forM nonces (dissolve token)) s v t) :
    Dissolved token nonces s t := by
  induction nonces generalizing s with
  | nil =>
    obtain rfl := yieldsForMNil.1 done
    exact ⟨fun _ _ => by simp, fun _ _ => by simp, fun _ => by simp⟩
  | cons n rest ih =>
    obtain ⟨w, first, later⟩ := yieldsForMCons.1 done
    exact (dissolveDissolved h first).trans (ih (dissolveExchanged h first).holding later)

structure Retired (token : Address) (nonce : UInt64) (b : Batch) (s t : Store) : Prop where
  batches : ∀ k c, t.batches.get? k = some c ↔
    s.batches.get? k = some c ∧ ¬ (k.1 = token ∧ k.2.toNat ≤ nonce.toNat)
  confirmations : ∀ k c, t.batchConfirmations.get? k = some c ↔ s.batchConfirmations.get? k = some c ∧
    ¬ (k.1 = token ∧ k.2.1.toNat ≤ nonce.toNat ∧ s.batches.contains (token, k.2.1) = true)
  pool : ∀ id x, t.pool.get? id = some x ↔ s.pool.get? id = some x ∨
    x.id = id ∧ ∃ n c, n.toNat < nonce.toNat ∧ s.batches.get? (token, n) = some c ∧ x ∈ c.transfers
  feeQueue : ∀ p, t.feeQueue.get? p = some () ↔ s.feeQueue.get? p = some () ∨
    ∃ n c x, n.toNat < nonce.toNat ∧ s.batches.get? (token, n) = some c ∧ x ∈ c.transfers ∧ Pool.place x = p
  gone : ∀ x ∈ b.transfers, ∀ id y, t.pool.get? id = some y → y.id ≠ x.id
  after : ∃ locked, t = { s with
    pool := t.pool
    feeQueue := t.feeQueue
    batches := t.batches
    batchConfirmations := t.batchConfirmations
    locked }

theorem settleLocks {p : Pairing} {total : Amount} {e : Effect} (h : Yields (settle p total) s e t) :
    ∃ locked, t = { s with locked } := by
  rcases settleYields h with ⟨_, _, _, rfl, _⟩ | ⟨_, rfl, _⟩
  · exact ⟨_, rfl⟩
  · exact ⟨_, rfl⟩

theorem executedRetires {e : Effect} (h : Holding s) (found : s.batches.get? (token, nonce) = some b)
    (done : Yields (executed token nonce) s e t) : Retired token nonce b s t := by
  rcases executedYields done with ⟨missing, _⟩ | ⟨_, u, _, _, _, older, last⟩
  · rw [missing] at found
    cases found
  have dissolved := dissolvesDissolved h older
  have kept := (dissolvesExchanged h older).1
  have discarded := kept.trans (discardExchanged kept.holding (olderSpares older found))
  have locks : ∃ locked, t = { discard token nonce u with locked } := by
    split at last
    · exact ⟨_, last.2⟩
    · exact settleLocks last
  obtain ⟨locked, rfl⟩ := locks
  have indexed : Pool.Indexed { discard token nonce u with locked } :=
    ⟨discarded.holding.indexed.keyed, discarded.holding.indexed.queued⟩
  have pool (id x) : (discard token nonce u).pool.get? id = some x ↔ s.pool.get? id = some x ∨
      x.id = id ∧ ∃ n c, n.toNat < nonce.toNat ∧ s.batches.get? (token, n) = some c ∧ x ∈ c.transfers := by
    rw [discarded.holding.indexed.getIff, h.indexed.getIff]
    have back : x ∈ (discard token nonce u).pool.values ↔ _ := dissolved.pool x
    rw [back]
    simp only [memOlder]
    constructor
    · rintro ⟨here | ⟨n, ⟨_, below⟩, c, stored, inside⟩, rfl⟩
      · exact .inl ⟨here, rfl⟩
      · exact .inr ⟨rfl, n, c, below, stored, inside⟩
    · rintro (⟨here, rfl⟩ | ⟨rfl, n, c, below, stored, inside⟩)
      · exact ⟨.inl here, rfl⟩
      · exact ⟨.inr ⟨n, ⟨⟨c, stored⟩, below⟩, c, stored, inside⟩, rfl⟩
  have upTo (n) : (∃ c, s.batches.get? (token, n) = some c) ∧ n.toNat < nonce.toNat ∨ n = nonce ↔
      n.toNat ≤ nonce.toNat ∧ ∃ c, s.batches.get? (token, n) = some c := by
    constructor
    · rintro (⟨stored, below⟩ | rfl)
      · exact ⟨Nat.le_of_lt below, stored⟩
      · exact ⟨Nat.le_refl _, b, found⟩
    · rintro ⟨upTo, stored⟩
      rcases Nat.lt_or_eq_of_le upTo with below | same
      · exact .inl ⟨stored, below⟩
      · exact .inr (UInt64.toNat_inj.1 same)
  constructor
  case batches =>
    intro k c
    show (discard token nonce u).batches.get? k = some c ↔ _
    rw [discardBatches, dissolved.batches, memOlder, and_assoc]
    refine and_congr_right fun here => ?_
    rw [← not_or, ← and_or_left, upTo]
    exact not_congr (and_congr_right fun ofToken => and_iff_left ⟨c, ofToken ▸ here⟩)
  case confirmations =>
    intro k c
    show (discard token nonce u).batchConfirmations.get? k = some c ↔ _
    rw [discardConfirmations, dissolved.confirmations, memOlder, and_assoc]
    rw [← not_or, ← and_or_left, upTo, SortedMap.contains, Option.isSome_iff_exists]
  case pool => exact pool
  case feeQueue =>
    intro p
    rw [indexed.queued, h.indexed.queued]
    constructor
    · rintro ⟨x, pooled, same⟩
      rcases (pool _ _).1 pooled with here | ⟨_, n, c, below, stored, inside⟩
      · exact .inl ⟨x, here, same⟩
      · exact .inr ⟨n, c, x, below, stored, inside, same⟩
    · rintro (⟨x, here, same⟩ | ⟨n, c, x, below, stored, inside, same⟩)
      · exact ⟨x, (pool _ _).2 (.inl here), same⟩
      · exact ⟨x, (pool _ _).2 (.inr ⟨rfl, n, c, below, stored, inside⟩), same⟩
  case gone =>
    intro x inside id y pooled same
    have held : y ∈ (discard token nonce u).held := List.mem_append_left _ (SortedMap.memValues.2 ⟨id, pooled⟩)
    have distinct := (discarded.balance.map Transfer.id).nodup_iff.2 h.distinct
    rw [List.nil_append, List.map_append] at distinct
    exact (List.nodup_append.1 distinct).2.2 _ (List.mem_map_of_mem inside) _ (List.mem_map_of_mem held) same.symm
  case after =>
    obtain ⟨_, _, _, _, moved⟩ := clearedMoves nonce older
    rw [moved]
    exact ⟨locked, rfl⟩

def Released (p : Pairing) (weight : Nat) (messages : List LedgerMessage) (s t : Store) : Prop :=
  if p.ofThisChain then
    messages = [] ∧ ∃ sum : Amount, sum.val = (s.locked.getD p.asset.key .zero).val + weight ∧
      t.locked = s.locked.insert p.asset.key sum
  else
    t.locked = s.locked ∧ ∃ contract total, p.asset = .cw20 contract ∧ total.val = weight ∧
      messages = [.call contract (.burn total)]

theorem weightPositive (filled : b.transfers ≠ []) (positive : ∀ x ∈ b.transfers, 0 < x.amount.val) :
    0 < b.weight := by
  obtain ⟨x, rest, same⟩ := List.exists_cons_of_ne_nil filled
  have first := positive x (same ▸ List.mem_cons_self ..)
  rw [Batch.weight, same, List.map_cons, List.sum_cons]
  omega

theorem executedApplied (done : Yields (executed token nonce) s (.applied messages) t) :
    ∃ b p, s.batches.get? (token, nonce) = some b ∧ s.pairings.get? token = some p := by
  rcases executedYields done with ⟨_, failed, _⟩ | ⟨b, u, _, found, _, older, last⟩
  · cases failed
  · split at last
    · cases last.1
    · rename_i p paired
      rw [(clearedMoves nonce older).books.pairings] at paired
      exact ⟨b, p, found, paired⟩

theorem executedReleased {p : Pairing} {Used : Asset → Prop} (reg : Registered Used s)
    (found : s.batches.get? (token, nonce) = some b) (paired : s.pairings.get? token = some p)
    (heavy : 0 < b.weight) (done : Yields (executed token nonce) s (.applied messages) t) :
    Released p b.weight messages s t := by
  have settles := executedSettles reg found paired done
  have origin := reg.origin paired
  unfold Released
  cases asset : p.asset with
  | native denom =>
    rw [asset] at settles
    obtain ⟨none, sum, value, locked⟩ := settles
    rw [if_pos (origin.2 ⟨denom, asset⟩)]
    exact ⟨Effect.applied.inj none, sum, value, locked⟩
  | cw20 contract =>
    rw [asset] at settles
    obtain ⟨locked, total, value, burned⟩ := settles
    have foreign : ¬ p.ofThisChain = true := fun ours => by
      obtain ⟨_, native⟩ := origin.1 ours
      rw [asset] at native
      cases native
    have nonzero : total.isZero = false := by
      rw [Amount.isZero, beq_eq_false_iff_ne]
      omega
    rw [nonzero] at burned
    rw [if_neg foreign]
    exact ⟨locked, contract, total, rfl, value, Effect.applied.inj burned⟩

end Batching

namespace Journal

variable {j : Journal}

/-- A point of the run, or where the effect of a claim is run on the way to the next. -/
inductive Reaches (j : Journal) : Store → Prop where
  | here : Reaches j j.store
  | within {block : Block} {u v : Store} {os : List Observation} {n : UInt64} {fingerprint : Word} {a : Attestation}
      (voted : Voted block j.store u) (pass : Observing.Pass .stored block u os v)
      (next : Counter.next? v.observedNonce = some n)
      (won : Observing.winner .stored v n v.totalPower = some (fingerprint, a)) :
      Reaches j (Observing.mark n fingerprint a v)

theorem Run.reached (run : Run j) (reached : j.Reaches s) :
    Holding s ∧ Batching.Filled s ∧ Registered (fun _ => True) s ∧ ∀ x ∈ s.held, 0 < x.amount.val := by
  have accounted := run.accounted
  have reg : Registered (fun _ => True) j.store := run.registered fun _ _ => trivial
  have positive : ∀ x ∈ j.store.held, 0 < x.amount.val := fun x held =>
    (accounted.enteredWorth (accounted.heldEntered held)).1
  cases reached with
  | here => exact ⟨accounted.holding, run.filled, reg, positive⟩
  | @within _ _ v _ n fingerprint a voted pass _ _ =>
    have entered := voted.escrow.exchanged accounted.holding
    obtain ⟨passed, fewer, _⟩ := Observing.passExchanged entered.holding pass voted.escrow.fewer
    have passedReg := Observing.passRegistered entered.holding (voted.escrow.registered reg)
      (fun _ _ _ _ => trivial) pass
    have kept : EscrowKept v (Observing.mark n fingerprint a v) := Observing.markEscrow
    refine ⟨(kept.exchanged passed.holding).holding, fewer.filled run.filled, kept.registered passedReg,
      fun x held => ?_⟩
    rw [kept.held] at held
    have before := heldBefore passed.balance held
    rw [voted.escrow.held] at before
    exact positive x before

/-- Wherever a run has an executed batch reported. Of a batch that is not stored nothing comes. Of one that is, where
its numbers fit, the effect is applied; and whenever it is applied, exactly what is `Retired` and `Released` changes. -/
theorem Run.executedExactly (run : Run j) (reached : j.Reaches s) (token : Address) (nonce : UInt64) :
    (s.batches.get? (token, nonce) = none →
      Yields (Batching.executed token nonce) s (.failed (.noBatch token nonce)) s) ∧
    (∀ b, s.batches.get? (token, nonce) = some b → s.Bears (.batchExecuted nonce token) →
      ∃ messages t, Yields (Batching.executed token nonce) s (.applied messages) t) ∧
    ∀ messages t, Yields (Batching.executed token nonce) s (.applied messages) t →
      ∃ b p, s.batches.get? (token, nonce) = some b ∧ s.pairings.get? token = some p ∧
        Batching.Retired token nonce b s t ∧ Batching.Released p b.weight messages s t := by
  obtain ⟨holding, filled, reg, positive⟩ := run.reached reached
  refine ⟨fun missing => ?_, fun b found bears => ?_, fun messages t done => ?_⟩
  · simp [Batching.executed, missing]
  · rcases yieldsOrHalts (Batching.executed token nonce) s with ⟨e, t, done⟩ | ⟨_, _, halts⟩
    · have paired := Batching.executedPaired holding filled reg done
      rcases Batching.executedYields done with ⟨missing, _⟩ | ⟨_, u, _, _, _, _, last⟩
      · rw [missing] at found
        cases found
      · split at last
        · exact absurd last.1 (paired.registered token)
        · rcases Batching.settleYields last with ⟨_, _, _, _, rfl⟩ | ⟨_, _, rfl⟩
          · exact ⟨_, t, done⟩
          · exact ⟨_, t, done⟩
    · exact absurd bears (Batching.executedHalts halts).2
  · obtain ⟨b, p, found, paired⟩ := Batching.executedApplied done
    have heavy := Batching.weightPositive (filled token nonce b found).2 fun x inside =>
      positive x (List.mem_append_right _ (Batching.memBatched found inside))
    exact ⟨b, p, found, paired, Batching.executedRetires holding found done,
      Batching.executedReleased reg found paired heavy done⟩

def stacked : Journal :=
  paired.deliverAll
    [(⟨103, 4⟩, withdrawal "alice" (.small 100) (.small 7)), (⟨104, 5⟩, withdrawal "bob" (.small 50) (.small 3)),
      (⟨105, 6⟩, withdrawal "carol" (.small 30) (.small 1)), (⟨106, 7⟩, request), (⟨107, 8⟩, request),
      (⟨108, 9⟩, request), (⟨109, 10⟩, confirming 1), (⟨110, 11⟩, confirming 3)]
where
  request : Order :=
    .execute ⟨⟨"carol"⟩, []⟩ (.requestBatch "0x0000000000000000000000000000000000000000" (some 1))
  confirming (nonce : UInt64) : Order :=
    .execute ⟨⟨"orch"⟩, []⟩ (.confirmBatch nonce "0x0000000000000000000000000000000000000000"
      "0x0000000000000000000000000000000000000001" ⟨[]⟩)

theorem stackedRun : Run stacked := pairedRun.deliverAll (by decide)

theorem stackedBatches :
    (∃ b ∈ stacked.store.batches.get? (.zero, 2), b.weight = 50 ∧
      ∀ p ∈ stacked.store.pairings.get? .zero, (stacked.store.locked.getD p.asset.key .zero).val = 0) ∧
    (∃ c ∈ stacked.store.batches.get? (.zero, 1), ∃ x ∈ c.transfers, x.id = 1) ∧
    (stacked.store.batches.get? (.zero, 3)).isSome = true ∧
    (stacked.store.batchConfirmations.get? (.zero, 1, ⟨"orch"⟩)).isSome = true ∧
    (stacked.store.batchConfirmations.get? (.zero, 3, ⟨"orch"⟩)).isSome = true := by
  decide +kernel

theorem stackedExecuted :
    Run stacked ∧ stacked.Reaches stacked.store ∧ ∃ messages t b p,
      Yields (Batching.executed .zero 2) stacked.store (.applied messages) t ∧
      Batching.Retired .zero 2 b stacked.store t ∧ Batching.Released p b.weight messages stacked.store t ∧
      t.batches.get? (.zero, 1) = none ∧ t.batches.get? (.zero, 2) = none ∧
      (∃ c, t.batches.get? (.zero, 3) = some c) ∧ (∃ x, t.pool.get? 1 = some x) ∧
      t.batchConfirmations.get? (.zero, 1, ⟨"orch"⟩) = none ∧
      ∃ c, t.batchConfirmations.get? (.zero, 3, ⟨"orch"⟩) = some c := by
  obtain ⟨⟨b, found, weight, unlocked⟩, ⟨c, older, x, inside, number⟩, newer, first, last⟩ := stackedBatches
  obtain ⟨_, completes, exact⟩ := Run.executedExactly stackedRun .here .zero 2
  obtain ⟨messages, t, done⟩ := completes b found fun d same => by
    rw [found] at same
    cases same
    rw [weight]
    exact ⟨by decide, fun p paired _ => by rw [unlocked p paired]; decide⟩
  obtain ⟨d, p, _, _, retired, released⟩ := exact messages t done
  obtain ⟨third, newer⟩ := Option.isSome_iff_exists.1 newer
  obtain ⟨confirmation, last⟩ := Option.isSome_iff_exists.1 last
  refine ⟨stackedRun, .here, messages, t, d, p, done, retired, released, ?_, ?_,
    ⟨third, (retired.batches _ third).2 ⟨newer, by decide⟩⟩,
    ⟨x, (retired.pool 1 x).2 (.inr ⟨number, 1, c, by decide, older, inside⟩)⟩, ?_,
    confirmation, (retired.confirmations _ confirmation).2 ⟨last, fun older => absurd older.2.1 (by decide)⟩⟩
  · refine Option.eq_none_iff_forall_ne_some.2 fun e found => ?_
    exact ((retired.batches _ e).1 found).2 ⟨rfl, by decide⟩
  · refine Option.eq_none_iff_forall_ne_some.2 fun e found => ?_
    exact ((retired.batches _ e).1 found).2 ⟨rfl, by decide⟩
  · refine Option.eq_none_iff_forall_ne_some.2 fun e found => ?_
    refine ((retired.confirmations _ e).1 found).2 ⟨rfl, by decide, ?_⟩
    exact Option.isSome_iff_exists.2 ⟨c, older⟩

end Journal

end TokenBridge
