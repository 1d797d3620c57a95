import TokenBridge.Proofs.Escrow.Effects
/-!
What passes of observations let out of escrow: the transfers of the batches that they found executed, all of
them stored before the pass.
-/
namespace TokenBridge

open TokenBridge.Action

variable {s t : Store} {block : Block} {r : Response} {e : Effect} {os : List Observation}

theorem Contract.setUpEscrow {m : Setup} (h : Yields (Contract.setUp m) .empty r t) :
    EscrowKept .empty t ∧ r.messages = [] ∧ r.observations = [] := by
  obtain ⟨_, _, rfl, silent, unobserving⟩ := Contract.setUpYields h
  obtain ⟨_, _, same⟩ := Directory.reportMoves m.stakes _
  rw [same]
  exact ⟨⟨rfl, rfl, rfl, rfl, rfl, rfl, rfl, rfl⟩, silent, unobserving⟩

theorem Holding.empty : Holding .empty where
  indexed := ⟨fun _ _ found => (nomatch found), fun p =>
    ⟨fun found => (nomatch found), fun ⟨_, found, _⟩ => (nomatch found)⟩⟩
  filed := ⟨fun _ _ _ found => (nomatch found), fun _ _ _ found => (nomatch found),
    fun _ _ _ found => (nomatch found)⟩
  distinct := List.nodup_nil
  numbered _ held := by cases held
  registered _ held := by cases held

theorem executedByEarlier {event : Event} {v : Store} (fewer : Batching.FewerBatches v s)
    (effected : Effected s event e t) :
    executedBy? v event e = executedBy? s event e := by
  cases effected with
  | idle _ unexecuted _ => rw [unexecuted, unexecuted]
  | released => rfl
  | paired => rfl
  | executed found _ _ _ _ _ =>
    simp only [executedBy?, found, fewer _ _ found]

theorem Effected.exchanged {event : Event} (h : Holding s) (effected : Effected s event e t) :
    Exchanged [] ((executedBy? s event e).toList.flatMap Batch.transfers) s t ∧
      Batching.FewerBatches s t ∧ t.lastTransfer = s.lastTransfer := by
  cases effected with
  | idle kept unexecuted _ =>
    rw [unexecuted]
    refine ⟨kept.exchanged h, fun k b found => ?_, kept.lastTransfer⟩
    rw [← kept.batches]
    exact found
  | released => exact ⟨h.keep rfl rfl rfl rfl rfl fun _ _ found => found, fun _ _ found => found, rfl⟩
  | paired free =>
    exact ⟨h.keep rfl rfl rfl rfl rfl (Registry.pairTokens free), fun _ _ found => found, rfl⟩
  | @executed nonce token b total u _ _ found _ left fewer moved settled =>
    have lastTransfer : u.lastTransfer = s.lastTransfer := by
      obtain ⟨_, _, _, _, rfl⟩ := moved
      rfl
    have reported : executedBy? s (.batchExecuted nonce token) e = some b := by
      cases settled with
      | unpaired => simp [executedBy?, found]
      | locked => simp [executedBy?, found]
      | burned => simp [executedBy?, found]
    have out : (executedBy? s (.batchExecuted nonce token) e).toList.flatMap Batch.transfers =
        b.transfers := by
      rw [reported]
      simp
    rw [out]
    cases settled with
    | unpaired => exact ⟨left, fewer, lastTransfer⟩
    | burned => exact ⟨left, fewer, lastTransfer⟩
    | @locked p sum _ _ _ =>
      have kept : Exchanged [] [] u { u with locked := u.locked.insert p.asset.key sum } :=
        left.holding.keep rfl rfl rfl rfl rfl fun _ _ found => found
      exact ⟨⟨kept.holding, left.balance⟩, fewer, lastTransfer⟩

def settlements (s : Store) (os : List Observation) : List (Observation × Batch) :=
  os.flatMap fun o => (executedBy? s o.claim.event o.effect).toList.map fun b => (o, b)

def settled (s : Store) (os : List Observation) : List Transfer :=
  (settlements s os).flatMap fun e => e.2.transfers

theorem settledCons (o : Observation) :
    settled s (o :: os) =
      (executedBy? s o.claim.event o.effect).toList.flatMap Batch.transfers ++ settled s os := by
  cases found : executedBy? s o.claim.event o.effect with
  | none => simp [settled, settlements, found]
  | some b => simp [settled, settlements, found]

theorem Observing.passExchanged {view : StakeView} {v : Store} (h : Holding s)
    (pass : Pass view block s os t) (fewer : Batching.FewerBatches v s) :
    Exchanged [] (settled v os) s t ∧ Batching.FewerBatches v t ∧
      t.lastTransfer = s.lastTransfer := by
  induction pass with
  | rest s => exact ⟨h.here, fewer, rfl⟩
  | @observe s u t nonce fingerprint a e later _ next won effect _ ih =>
    have marked : EscrowKept s (mark nonce fingerprint a s) := markEscrow
    have first := marked.exchanged h
    have effected := takeEffectEffected first.holding effect
    obtain ⟨left, fewer', last⟩ := effected.exchanged first.holding
    have fewerMark : Batching.FewerBatches v (mark nonce fingerprint a s) := fewer
    rw [← executedByEarlier fewerMark effected] at left
    obtain ⟨rest, fewer'', last'⟩ := ih left.holding fun k b found => fewer k b (fewer' k b found)
    rw [settledCons]
    exact ⟨(first.trans left).trans rest, fewer'', last'.trans last⟩

theorem Observing.passHolding {view : StakeView} (h : Holding s) (pass : Pass view block s os t) :
    Holding t :=
  (passExchanged h pass fun _ _ found => found).1.holding

end TokenBridge
