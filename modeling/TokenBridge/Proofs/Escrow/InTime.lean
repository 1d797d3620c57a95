import TokenBridge.Proofs.Escrow.Lifecycle
import TokenBridge.Proofs.Observation.ExactlyOnce
/-!
Batches that are executed in time. Where observed heights do not fall and the batches of a token are executed in
the order of their numbers, neither the end of a block nor another batch gives the transfers of a batch back
before its execution is observed, if that happened by its timeout.
-/
namespace TokenBridge

open TokenBridge.Action

variable {s t u : Store} {block : Block} {order : Order} {r : Response} {e : Effect} {b c : Batch}
  {token : Address} {nonce : UInt64} {o : Observation} {os past later : List Observation}

def Store.HasBatch (s : Store) (b : Batch) : Prop := s.batches.get? (b.token, b.nonce) = some b

instance : Decidable (s.HasBatch b) := inferInstanceAs (Decidable (_ = _))

def Event.executes? : Event → Option (Address × UInt64)
  | .batchExecuted nonce token => some (token, nonce)
  | _ => none

def HeightsRise (os : List Observation) : Prop :=
  os.Pairwise fun o p => o.claim.ethHeight ≤ p.claim.ethHeight

def executions (os : List Observation) : List (Address × UInt64) :=
  os.filterMap fun o => o.claim.event.executes?

def ExecutedInTurn (os : List Observation) : Prop :=
  (executions os).Pairwise fun x y => x.1 = y.1 → x.2 < y.2

instance : Decidable (HeightsRise os) := inferInstanceAs (Decidable (List.Pairwise _ _))

instance : Decidable (ExecutedInTurn os) := inferInstanceAs (Decidable (List.Pairwise _ _))

theorem memExecutions {k : Address × UInt64} :
    k ∈ executions os ↔ ∃ o ∈ os, o.claim.event.executes? = some k :=
  List.mem_filterMap

structure Observation.Spares (o : Observation) (b : Batch) : Prop where
  height : o.claim.ethHeight ≤ b.timeout
  below : ∀ n, o.claim.event.executes? = some (b.token, n) → n < b.nonce

theorem sparedBefore (rise : HeightsRise (os ++ o :: later)) (turn : ExecutedInTurn (os ++ o :: later))
    (executes : o.claim.event.executes? = some (b.token, b.nonce))
    (inTime : o.claim.ethHeight ≤ b.timeout) : ∀ p ∈ os, p.Spares b := by
  intro p before
  refine ⟨?_, fun n executed => ?_⟩
  · have below := (List.pairwise_append.1 rise).2.2 p before o (List.mem_cons_self ..)
    exact UInt64.le_trans below inTime
  · rw [ExecutedInTurn, executions, List.filterMap_append] at turn
    have earlier := memExecutions.2 ⟨p, before, executed⟩
    have here := memExecutions.2 ⟨o, List.mem_cons_self (l := later), executes⟩
    exact (List.pairwise_append.1 turn).2.2 _ earlier _ here rfl

theorem Store.HasBatch.keep (here : s.HasBatch b) (same : t.batches = s.batches) : t.HasBatch b := by
  rw [HasBatch, same]
  exact here

namespace Batching

theorem executedFinds (here : s.batches.get? (token, nonce) = some b)
    (done : Yields (executed token nonce) s e t) : e ≠ .failed (.noBatch token nonce) := by
  rintro rfl
  rcases executedYields done with ⟨missing, _⟩ | ⟨_, _, _, _, _, _, last⟩
  · rw [here] at missing
    cases missing
  · split at last
    · cases last.1
    · rcases settleYields last with ⟨_, _, _, _, effect⟩ | ⟨_, _, effect⟩
      · cases effect
      · cases effect

theorem executedSpares (here : s.HasBatch b) (below : token = b.token → nonce < b.nonce)
    (done : Yields (executed token nonce) s e t) : t.HasBatch b := by
  rcases executedYields done with ⟨_, _, rfl⟩ | ⟨_, u, _, _, _, older, last⟩
  · exact here
  · have apart : ∀ n : UInt64, n.toNat ≤ nonce.toNat → (token, n) ≠ (b.token, b.nonce) := by
      intro n bound same
      obtain ⟨sameToken, sameNonce⟩ := Prod.mk.inj same
      have overtaken := UInt64.lt_iff_toNat_lt.1 (below sameToken)
      rw [← sameNonce] at overtaken
      omega
    have kept : u.HasBatch b := forMKeeps (P := (Store.HasBatch · b)) older here
      fun n earlier _ _ stored round =>
        dissolveSpares round (apart n (Nat.le_of_lt (memOlder.1 earlier).2)) stored
    have left : (discard token nonce u).HasBatch b :=
      SortedMap.getEraseSome.2 ⟨apart nonce (Nat.le_refl _), kept⟩
    split at last
    · obtain ⟨_, rfl⟩ := last
      exact left
    · rcases settleYields last with ⟨_, _, _, rfl, _⟩ | ⟨_, rfl, _⟩
      · exact left
      · exact left

theorem expiredSpares (h : Filed s) (here : s.HasBatch b) (inTime : s.ethHeight ≤ b.timeout)
    (done : Yields (forM (expired s) fun c => dissolve c.token c.nonce) s ⟨⟩ t) : t.HasBatch b := by
  refine forMKeeps (P := (Store.HasBatch · b)) done here fun c late _ _ stored round => ?_
  refine dissolveSpares round (fun same => ?_) stored
  obtain ⟨listed, late⟩ := List.mem_filter.1 late
  obtain ⟨⟨k, n⟩, found⟩ := SortedMap.memValues.1 listed
  obtain ⟨rfl, rfl⟩ := h.keyed k n c found
  rw [same, here] at found
  cases found
  rw [Counter.below, Nat.blt_eq] at late
  exact Nat.not_lt.2 (UInt64.le_iff_toNat_le.1 inTime) late

theorem assembleSpares {limit : Nat} {height timeout : UInt64} (h : Filed s) (here : s.HasBatch b)
    (made : Yields (assemble token limit height timeout) s c t) : t.HasBatch b := by
  obtain ⟨_, _, ofToken, _, _, next, rfl⟩ := assembleYields made
  obtain ⟨_, _, removed⟩ := Pool.removeAllKeeps c.transfers s
  rw [removed] at next ⊢
  rw [Store.HasBatch, SortedMap.getInsert, if_neg]
  · exact here
  · intro same
    obtain ⟨sameToken, sameNonce⟩ := Prod.mk.inj same
    have bound := h.numbered _ _ b here
    have later := Counter.nextVal next
    rw [← sameToken, ← sameNonce] at bound
    dsimp only at later
    omega

end Batching

theorem Effected.spares {event : Event} (effected : Effected s event e t)
    (unexecuting : event.executes? = none) : t.batches = s.batches := by
  cases effected with
  | idle kept => exact kept.batches
  | released => rfl
  | paired => rfl
  | executed => cases unexecuting

namespace Observing

theorem takeEffectSpares {claim : Claim} (h : Holding s) (here : s.HasBatch b)
    (below : ∀ n, claim.event.executes? = some (b.token, n) → n < b.nonce)
    (done : Yields (takeEffect block claim) s e t) : t.HasBatch b := by
  cases executes : claim.event.executes? with
  | none => exact here.keep ((takeEffectEffected h done).spares executes)
  | some k =>
    cases kind : claim.event with
    | batchExecuted nonce token =>
      rw [kind] at below
      simp only [takeEffect, kind] at done
      exact Batching.executedSpares here (fun same => below nonce (same ▸ rfl)) done
    | deposit | callExecuted | tokenDeployed | signersUpdated =>
      rw [kind] at executes
      cases executes

theorem passSpares {view : StakeView} (h : Holding s) (here : s.HasBatch b)
    (spared : ∀ o ∈ os, o.Spares b) (pass : Pass view block s os t) : t.HasBatch b := by
  induction pass with
  | rest => exact here
  | @observe s _ _ nonce fingerprint a _ _ _ _ _ effect _ ih =>
    have marked : Holding (mark nonce fingerprint a s) := (markEscrow.exchanged h).holding
    have effected := takeEffectEffected marked effect
    have kept := takeEffectSpares marked here (spared _ (List.mem_cons_self ..)).below effect
    exact ih (effected.exchanged marked).1.holding kept fun o found =>
      spared o (List.mem_cons_of_mem _ found)

theorem passFinds {view : StakeView} (h : Holding s) (here : s.HasBatch b)
    (spared : ∀ o ∈ os, o.Spares b) (executes : o.claim.event = .batchExecuted b.nonce b.token)
    (pass : Pass view block s (os ++ o :: later) t) :
    ∃ v, Pass view block s os v ∧ Pass view block v (o :: later) t ∧ v.HasBatch b ∧
      o.effect ≠ .failed (.noBatch b.token b.nonce) := by
  obtain ⟨v, first, last⟩ := passSplit pass
  have stored := passSpares h here spared first
  refine ⟨v, first, last, stored, ?_⟩
  cases last with
  | observe _ _ _ effect _ =>
    dsimp only at executes
    simp only [takeEffect, executes] at effect
    exact Batching.executedFinds (s := mark _ _ _ v) stored effect

end Observing

theorem InOrder.heightWithin {height : UInt64} (inv : InOrder s os)
    (within : ∀ o ∈ os, o.claim.ethHeight ≤ height) : s.ethHeight ≤ height := by
  rcases inv.height.attained with ⟨n, p, c, found, same⟩ | ⟨_, zero⟩
  · obtain ⟨o, observed, rfl⟩ := inv.observedFrom found
    exact same ▸ within o observed
  · rw [zero]
    exact UInt64.zero_le

theorem Movement.spares (h : Holding s) (inv : InOrder s past) (here : s.HasBatch b)
    (spared : ∀ o ∈ past ++ r.observations, o.Spares b) (moved : Movement block s order r t) :
    t.HasBatch b := by
  cases moved with
  | administered _ _ moved => exact here.keep moved.escrow.batches
  | reported _ after =>
    rw [after]
    exact here.keep (Directory.reportMoves order.reports s).escrow.batches
  | entered _ _ _ _ _ _ after =>
    rw [after]
    exact here
  | cancelled _ _ _ _ _ _ after =>
    rw [after]
    exact here
  | assembled _ _ made => exact Batching.assembleSpares h.filed here made
  | registered _ _ _ after =>
    obtain ⟨_, unparked⟩ := Registry.unparkAllMoves _ _ _
    rw [after, unparked]
    exact here
  | @observed u v w os dissolved _ _ voted pass returned moved answers ended =>
    rw [answers.observations] at spared
    have holding := (voted.escrow.exchanged h).holding
    have passed := Observing.passSpares holding (here.keep voted.escrow.batches)
      (fun o found => spared o (List.mem_append_right _ found)) pass
    have atEnd := (Observing.passInOrder (voted.inOrder inv).1 pass).1
    have inTime := atEnd.heightWithin fun o found => (spared o found).height
    refine Store.HasBatch.keep ?_ moved.escrow.batches
    rcases ended with rfl | rfl
    · obtain rfl := yieldsForMNil.1 returned
      exact passed
    · exact Batching.expiredSpares (Observing.passHolding holding pass).filed passed inTime returned

structure Store.Keeps (s : Store) (b : Batch) : Prop where
  stored : s.HasBatch b
  unpooled : ∀ x ∈ b.transfers, s.pool.get? x.id = none
  alone : ∀ x ∈ b.transfers, s.batches.values.filter (fun c => carries x.id c.transfers) = [b]

theorem Holding.keeps (h : Holding s) (here : s.HasBatch b) : s.Keeps b where
  stored := here
  unpooled x inside := by
    have held := h.distinct
    rw [Store.held, List.map_append] at held
    have batched := List.mem_map_of_mem (f := Transfer.id) (Batching.memBatched here inside)
    cases found : s.pool.get? x.id with
    | none => rfl
    | some y =>
      have pooled := List.mem_map_of_mem (f := Transfer.id) (SortedMap.memValues.2 ⟨_, found⟩)
      rw [h.indexed.keyed _ _ found] at pooled
      exact absurd rfl ((List.nodup_append.1 held).2.2 _ pooled _ batched)
  alone x inside := by
    have held := h.distinct
    rw [Store.held, List.map_append] at held
    exact soleCarrier (List.nodup_append.1 held).2.1 (SortedMap.memValues.2 ⟨_, here⟩) inside

def Deed.Builds (d : Deed) (b : Batch) : Prop := ¬ d.before.HasBatch b ∧ d.after.HasBatch b

instance {d : Deed} : Decidable (d.Builds b) := inferInstanceAs (Decidable (_ ∧ _))

namespace Journal

variable {i j k m : Journal} {d : Deed}

theorem Run.lastDeed (run : Run j) : ∀ d, j.deeds.getLast? = some d → j.store = d.after := by
  refine Run.keeps ?setUp ?deed run
  case setUp =>
    intro block m r t _ d last
    cases last
    rfl
  case deed =>
    intro j block order r t _ _ _ _ d last
    rw [List.getLast?_concat] at last
    cases last
    rfl

theorem Follows.hasBatch (h : Follows i k) (run : Run i) (here : i.store.HasBatch b)
    (spared : ∀ o ∈ k.observations, o.Spares b) : k.store.HasBatch b := by
  suffices kept : (∀ o ∈ k.observations, o.Spares b) → k.store.HasBatch b from kept spared
  refine Follows.keeps h run (fun _ => here) ?_
  intro k block order r t past kept later yields spared
  rw [observationsConcat] at spared
  have moved := Chain.laterMovement later yields
  exact moved.spares past.accounted.holding past.inOrder
    (kept fun o found => spared o (List.mem_append_left _ found)) spared

theorem Follows.observations (h : Follows m k) (run : Run m) :
    ∃ more, k.observations = m.observations ++ more := by
  obtain ⟨more, same⟩ := h.deeds run
  exact ⟨more.flatMap fun d => d.response.observations, by
    rw [Journal.observations, same, List.flatMap_append]
    rfl⟩

theorem Accounted.unspent (h : Accounted j) (here : j.store.HasBatch b) :
    ∀ x ∈ b.transfers, ¬ j.Refunded x ∧ ¬ j.Settled x := by
  intro x inside
  have held : x ∈ j.store.held := List.mem_append_right _ (Batching.memBatched here inside)
  exact (h.heldIff.1 held).2

/-- While observed heights do not fall and batches are executed in turn, an execution by the timeout finds its batch.
-/
theorem Run.executedInTime (run : Run i) {built : Deed} (last : i.deeds.getLast? = some built)
    (builds : built.Builds b) (follows : Follows i k)
    (started : order.setsUp = false) (delivered : (k.deliver block order).deeds = k.deeds ++ [d])
    (observed : d.response.observations = os ++ o :: later)
    (executes : o.claim.event = .batchExecuted b.nonce b.token)
    (inTime : o.claim.ethHeight ≤ b.timeout) (rise : HeightsRise (k.deliver block order).observations)
    (turn : ExecutedInTurn (k.deliver block order).observations) :
    (∀ m, Follows i m → Follows m k →
      m.store.Keeps b ∧ ∀ x ∈ b.transfers, ¬ m.Refunded x ∧ ¬ m.Settled x) ∧
    (∃ u v w, Voted block k.store u ∧ Observing.Pass .stored block u os v ∧
      Observing.Pass .stored block v (o :: later) w ∧ VotesKept w d.after ∧
      v.Keeps b ∧ ∀ x ∈ b.transfers, x ∉ TokenBridge.settled k.store os) ∧
    o.effect ≠ .failed (.noBatch b.token b.nonce) ∧ (o, b) ∈ d.settlements := by
  obtain ⟨before, _, _, yields⟩ := deliverDeed delivered
  have all : (k.deliver block order).observations = (k.observations ++ os) ++ o :: later := by
    rw [observations, delivered, List.flatMap_append, List.append_assoc, ← observed]
    simp [observations]
  rw [all] at rise turn
  have spared := sparedBefore rise turn (by rw [executes]; rfl) inTime
  have here : i.store.HasBatch b := by
    rw [run.lastDeed _ last]
    exact builds.2
  have between : ∀ m, Follows i m → Follows m k → m.store.HasBatch b := by
    intro m after upTo
    obtain ⟨more, same⟩ := upTo.observations (after.run run)
    refine after.hasBatch run here fun p found => spared p (List.mem_append_left _ ?_)
    rw [same]
    exact List.mem_append_left _ found
  have stored := between k follows (.here k)
  have accounted := (follows.run run).accounted
  obtain ⟨u, w, voted, pass, kept⟩ := (Chain.laterMovement started yields).observes
  have marked := voted.escrow.exchanged accounted.holding
  have fewer : Batching.FewerBatches k.store u := fun key c found => voted.escrow.batches ▸ found
  rw [observed] at pass
  obtain ⟨v, first, rest, passed, found⟩ := Observing.passFinds marked.holding
    (stored.keep voted.escrow.batches) (fun p found => spared p (List.mem_append_right _ found)) executes pass
  obtain ⟨exchanged, _⟩ := Observing.passExchanged marked.holding first fewer
  refine ⟨fun m after upTo => ?_,
    ⟨u, v, w, voted, first, rest, kept, exchanged.holding.keeps passed, ?_⟩, found, ?_⟩
  · have accounted := (after.run run).accounted
    exact ⟨accounted.holding.keeps (between m after upTo), accounted.unspent (between m after upTo)⟩
  · intro x inside gone
    have held : x ∈ v.held := List.mem_append_right _ (Batching.memBatched passed inside)
    have distinct := (exchanged.balance.map Transfer.id).nodup_iff.2 marked.holding.distinct
    rw [List.map_append] at distinct
    exact (List.nodup_append.1 distinct).2.2 _ (List.mem_map_of_mem gone) _ (List.mem_map_of_mem held) rfl
  · refine List.mem_flatMap.2 ⟨o, by simp [observed], ?_⟩
    have listed : k.store.batches.get? (b.token, b.nonce) = some b := stored
    simp [before, executes, executedBy?, found, listed]

def reporting (claim : Claim) : Order := .execute ⟨⟨"orch"⟩, []⟩ (.submitClaim claim)

/-- Two batches of `atom` that time out behind the height 3650. -/
def twoBatches : Journal :=
  paired.deliverAll
    [(⟨103, 4⟩, withdrawal "alice" (.small 100) (.small 7)),
      (⟨104, 5⟩, withdrawal "bob" (.small 50) (.small 3)),
      (⟨105, 6⟩, request), (⟨106, 7⟩, request)]
where
  request : Order :=
    .execute ⟨⟨"carol"⟩, []⟩ (.requestBatch "0x0000000000000000000000000000000000000000" (some 1))

theorem twoBatchesRun : Run twoBatches := pairedRun.deliverAll (by decide)

def halfExecuted : Journal :=
  ((twoBatches.deliver ⟨107, 8⟩ (.execute ⟨⟨"carol"⟩, []⟩ .endBlock)).deliver ⟨108, 9⟩
    (reporting ⟨2, 60, .batchExecuted 1 .zero⟩)).deliver ⟨109, 10⟩ (.execute ⟨⟨"carol"⟩, []⟩ .endBlock)

def fullyExecuted : Journal :=
  halfExecuted.deliver ⟨110, 11⟩ (reporting ⟨3, 3650, .batchExecuted 2 .zero⟩)

theorem fullyExecutedDeeds :
    HeightsRise fullyExecuted.observations ∧ ExecutedInTurn fullyExecuted.observations ∧
    ∃ built ∈ twoBatches.deeds.getLast?, ∃ b ∈ twoBatches.store.batches.get? (.zero, 2), built.Builds b ∧
      ∃ d ∈ fullyExecuted.deeds.getLast?, fullyExecuted.deeds = halfExecuted.deeds ++ [d] ∧
        ∃ o ∈ d.response.observations, d.response.observations = [o] ∧
          o.claim.event = .batchExecuted b.nonce b.token ∧ o.claim.ethHeight = b.timeout := by
  decide +kernel

theorem executedAtTimeout :
    Run twoBatches ∧ Follows twoBatches halfExecuted ∧ HeightsRise fullyExecuted.observations ∧
    ExecutedInTurn fullyExecuted.observations ∧
    ∃ built b d o, twoBatches.deeds.getLast? = some built ∧ built.Builds b ∧
      fullyExecuted.deeds = halfExecuted.deeds ++ [d] ∧ d.response.observations = [o] ∧
      o.claim.event = .batchExecuted b.nonce b.token ∧ o.claim.ethHeight = b.timeout ∧
      twoBatches.store.Keeps b ∧ halfExecuted.store.Keeps b ∧ (o, b) ∈ d.settlements := by
  have later : Follows twoBatches halfExecuted :=
    .later (.later (.later (.here _) _ _ rfl) _ _ rfl) _ _ rfl
  obtain ⟨rise, turn, built, last, b, _, builds, d, _, delivered, o, _, observed, executes, atTimeout⟩ :=
    fullyExecutedDeeds
  have alone : d.response.observations = [] ++ o :: [] := observed
  have inTime : o.claim.ethHeight ≤ b.timeout := UInt64.le_of_eq atTimeout
  obtain ⟨kept, _, _, finds⟩ :=
    Run.executedInTime twoBatchesRun last builds later rfl delivered alone executes inTime rise turn
  exact ⟨twoBatchesRun, later, rise, turn, built, b, d, o, last, builds, delivered, observed, executes, atTimeout,
    (kept _ (.here _) later).1, (kept _ later (.here _)).1, finds⟩

end Journal

end TokenBridge
