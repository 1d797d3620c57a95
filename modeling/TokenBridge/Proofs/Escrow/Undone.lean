import TokenBridge.Proofs.Escrow.BestPaying
import TokenBridge.Proofs.Escrow.Executed
import TokenBridge.Proofs.Signing.Confirmed
/-!
A batch that is dissolved leaves as if it had never been built. Its transfers are in the pool and the fee queue as they
were, the confirmations it has gathered are gone, and only its number is used up, so that a further batch takes the
same transfers under the next.
-/
namespace TokenBridge

open TokenBridge.Action

variable {s t u v : Store} {b : Batch} {token : Address} {nonce : UInt64} {limit : Nat} {height timeout : UInt64}

def Store.withLast (s : Store) (token : Address) (nonce : UInt64) : Store :=
  { s with lastBatch := s.lastBatch.insert token nonce }

inductive Countersigned (token : Address) (nonce : UInt64) (s : Store) : Store → Prop where
  | unsigned : Countersigned token nonce s s
  | signed {t u : Store} {caller : Caller} {written signer : String} {signature : Blob} {r : Response}
      (past : Countersigned token nonce s t) (ofToken : Address.parse written = .ok token)
      (confirmed : Yields (Batching.confirm caller nonce written signer signature) t r u) :
      Countersigned token nonce s u

theorem Countersigned.after (h : Countersigned token nonce s t) :
    ∃ confirmations, t = { s with batchConfirmations := confirmations } ∧
      ∀ k n o, ¬ (k = token ∧ n = nonce) → confirmations.get? (k, n, o) = s.batchConfirmations.get? (k, n, o) := by
  induction h with
  | unsigned => exact ⟨_, rfl, fun _ _ _ _ => rfl⟩
  | @signed t u caller _ _ _ _ _ ofToken confirmed ih =>
    obtain ⟨confirmations, rfl, others⟩ := ih
    obtain ⟨_, k, _, _, parsed, _, _, _, _, rfl, _⟩ := Batching.confirmYields confirmed
    cases ofToken.symm.trans parsed
    refine ⟨_, rfl, fun k n o apart => ?_⟩
    rw [SortedMap.getInsertOther _ _ (by rintro ⟨⟩; exact apart ⟨rfl, rfl⟩)]
    exact others k n o apart

namespace Batching

theorem discardBack (fresh : ∀ o, s.batchConfirmations.get? (token, nonce, o) = none)
    (others : ∀ k n o, ¬ (k = token ∧ n = nonce) →
      t.batchConfirmations.get? (k, n, o) = s.batchConfirmations.get? (k, n, o)) :
    (discard token nonce t).batchConfirmations = s.batchConfirmations := by
  refine SortedMap.extGet fun (k, n, o) => Option.ext fun c => ?_
  rw [discardConfirmations]
  by_cases same : k = token ∧ n = nonce
  · obtain ⟨rfl, rfl⟩ := same
    simp [fresh o]
  · rw [others k n o same]
    exact and_iff_left same

theorem assembleDissolved {p : PUnit} (h : Holding s) (made : Yields (assemble token limit height timeout) s b t)
    (fresh : ∀ o, s.batchConfirmations.get? (token, b.nonce, o) = none) (signed : Countersigned token b.nonce t u)
    (done : Yields (dissolve token b.nonce) u p v) : v = s.withLast token b.nonce := by
  have built := assembleExchanged h made
  obtain ⟨_, next, _, after⟩ := (assembleIff h.indexed).1 made
  obtain ⟨_, _, removed⟩ := Pool.removeAllKeeps ((Pool.queued s token).take limit) s
  rw [removed] at after
  have unfiled : s.batches.get? (token, b.nonce) = none := h.filed.unnumbered (Counter.nextVal next)
  obtain ⟨confirmations, rfl, others⟩ := signed.after
  have kept : EscrowKept t { t with batchConfirmations := confirmations } := ⟨rfl, rfl, rfl, rfl, rfl, rfl, rfl, rfl⟩
  have signed := kept.exchanged built.holding
  have round : Exchanged [] [] s v := built.trans (signed.trans (dissolveExchanged signed.holding done))
  obtain ⟨c, _, left⟩ := dissolveYields done
  obtain ⟨pool, feeQueue, added⟩ := Pool.addAllKeeps c.transfers { t with batchConfirmations := confirmations }
  rw [added, after] at left
  have batches : v.batches = s.batches := by
    rw [left]
    exact SortedMap.eraseInsert unfiled b
  have signatures : v.batchConfirmations = s.batchConfirmations := by
    rw [left]
    refine discardBack fresh fun k n o apart => ?_
    rw [others k n o apart, after]
  -- Nothing has left escrow and the same batches are stored, so the pool lists what it listed.
  have values : v.pool.values.Perm s.pool.values := by
    have balance : (v.pool.values ++ v.batched).Perm (s.pool.values ++ s.batched) := round.balance
    rwa [Store.batched, batches, ← Store.batched, List.perm_append_right_iff] at balance
  obtain ⟨pooled, queued⟩ := round.holding.indexed.same h.indexed fun id x => by
    rw [round.holding.indexed.getIff, h.indexed.getIff, values.mem_iff]
  subst left
  dsimp only [discard, Store.withLast] at batches signatures pooled queued ⊢
  rw [batches, signatures, pooled, queued]

theorem assembleUndone (h : Holding s) (made : Yields (assemble token limit height timeout) s b t)
    (fresh : ∀ o, s.batchConfirmations.get? (token, b.nonce, o) = none) (signed : Countersigned token b.nonce t u) :
    Yields (dissolve token b.nonce) u ⟨⟩ (s.withLast token b.nonce) := by
  obtain ⟨_, _, _, after⟩ := (assembleIff h.indexed).1 made
  have found : u.batches.get? (token, b.nonce) = some b := by
    obtain ⟨_, rfl, _⟩ := signed.after
    rw [after]
    exact SortedMap.getInsertSelf ..
  have done := dissolveMade found
  rwa [assembleDissolved h made fresh signed done] at done

end Batching

namespace Journal

variable {j : Journal}

theorem Run.unfiledUnsigned (run : Run j) (reached : j.Reaches s) (unfiled : s.batches.get? (token, nonce) = none)
    (o : Account) : s.batchConfirmations.get? (token, nonce, o) = none := by
  -- Confirmations are of stored batches at the point of the run, and a pass drops those of the batches that go.
  have cleared : Cleared j.store s := by
    cases reached with
    | here => exact .here
    | within voted pass _ _ =>
      refine (Cleared.trans ?_ (Observing.passCleared pass)).trans (.kept rfl rfl rfl)
      rcases voted with rfl | ⟨_, _, _, _, _, cast⟩
      · exact .here
      · obtain ⟨_, rfl⟩ := Voting.castYields cast
        exact .kept rfl rfl rfl
  refine Option.eq_none_iff_forall_ne_some.2 fun c found => ?_
  obtain ⟨old, stays⟩ := (cleared.shed.batches _ _ _ c).1 found
  obtain ⟨_, _, _, stored, _⟩ := run.confirmed.batches _ _ _ c old
  obtain ⟨b, filed⟩ := stays stored
  rw [unfiled] at filed
  cases filed

/-- A batch that is built and dissolved again, whatever confirmations it has gathered, leaves only its number behind.
-/
theorem Run.buildingUndone (run : Run j) (reached : j.Reaches s)
    (waits : ∃ id x, s.pool.get? id = some x ∧ x.token = token)
    (room : (s.lastBatch.getD token 0).toNat + 2 < UInt64.size) (positive : 1 ≤ limit) (height timeout : UInt64) :
    ∃ b t, Yields (Batching.assemble token limit height timeout) s b t ∧
      b.nonce.toNat = (s.lastBatch.getD token 0).toNat + 1 ∧
      ∀ u, Countersigned token b.nonce t u →
        Yields (Batching.dissolve token b.nonce) u ⟨⟩ (s.withLast token b.nonce) ∧
        ∀ height timeout, ∃ c v,
          Yields (Batching.assemble token limit height timeout) (s.withLast token b.nonce) c v ∧
          c.transfers = b.transfers ∧ c.nonce.toNat = b.nonce.toNat + 1 := by
  have holding := (run.reached reached).1
  obtain ⟨b, t, made, _, _, best⟩ := Batching.assembleBest holding positive (by omega) height timeout waits
  refine ⟨b, t, made, best.nonce, fun u signed => ⟨?undone, fun height timeout => ?again⟩⟩
  case undone =>
    exact Batching.assembleUndone holding made (run.unfiledUnsigned reached best.fresh) signed
  case again =>
    obtain ⟨filled, next, same, _⟩ := (Batching.assembleIff holding.indexed).1 made
    have indexed : Pool.Indexed (s.withLast token b.nonce) :=
      ⟨holding.indexed.keyed, holding.indexed.queued⟩
    have last : (s.withLast token b.nonce).lastBatch.getD token 0 = b.nonce := by simp [Store.withLast, SortedMap.getD]
    obtain ⟨n, further⟩ := Counter.nextRoom (n := b.nonce) (by rw [best.nonce]; omega)
    rw [← last] at further
    refine ⟨_, _, Batching.assembleMade indexed further filled, ?_, ?_⟩
    · rw [same]
      rfl
    · rw [last] at further
      exact Counter.nextVal further

def buildSigned : Action Response := do
  let b ← Batching.assemble .zero 2 107 3600
  Batching.confirm ⟨⟨"orch"⟩, []⟩ b.nonce "0x0000000000000000000000000000000000000000"
    "0x0000000000000000000000000000000000000001" ⟨[]⟩

theorem crowdedSigned :
    (buildSigned.commit crowded.store).1.isOk = true ∧
    (crowded.store.lastBatch.getD .zero 0).toNat + 2 < UInt64.size ∧
    (crowded.store.pool.get? 1).map Transfer.token = some .zero ∧
    Address.parse "0x0000000000000000000000000000000000000000" = .ok .zero := by
  decide +kernel

theorem crowdedUndone :
    Run crowded ∧ crowded.Reaches crowded.store ∧ (∃ id x, crowded.store.pool.get? id = some x ∧ x.token = .zero) ∧
    (crowded.store.lastBatch.getD .zero 0).toNat + 2 < UInt64.size ∧ 1 ≤ 2 ∧
    ∃ b t r u, Yields (Batching.assemble .zero 2 107 3600) crowded.store b t ∧
      Yields (Batching.confirm ⟨⟨"orch"⟩, []⟩ b.nonce "0x0000000000000000000000000000000000000000"
        "0x0000000000000000000000000000000000000001" ⟨[]⟩) t r u ∧
      Yields (Batching.dissolve .zero b.nonce) u ⟨⟩ (crowded.store.withLast .zero b.nonce) ∧
      ∃ c v, Yields (Batching.assemble .zero 2 108 7200) (crowded.store.withLast .zero b.nonce) c v ∧
        c.transfers = b.transfers ∧ c.nonce.toNat = b.nonce.toNat + 1 := by
  obtain ⟨signs, room, waits, parsed⟩ := crowdedSigned
  obtain ⟨x, pooled, ofToken⟩ := Option.map_eq_some_iff.1 waits
  have waits : ∃ id x, crowded.store.pool.get? id = some x ∧ x.token = .zero := ⟨1, x, pooled, ofToken⟩
  obtain ⟨b, t, made, _, undone⟩ := Run.buildingUndone crowdedRun .here waits room (by decide : 1 ≤ 2) 107 3600
  obtain ⟨r, u, signed⟩ := commitOk signs
  obtain ⟨_, _, again, confirmed⟩ := yieldsBind.1 signed
  obtain ⟨rfl, rfl⟩ := made.alone again
  obtain ⟨dissolved, further⟩ := undone u (.signed .unsigned parsed confirmed)
  exact ⟨crowdedRun, .here, waits, room, by decide, b, t, r, u, made, confirmed, dissolved, further 108 7200⟩

end Journal

end TokenBridge
