import TokenBridge.Proofs.Escrow.Conservation
/-!
What is held under a name. Escrow and locked balance of one name, be it of a denomination or of a cw20 contract,
are together never more than what was brought in under it.
-/
namespace TokenBridge

open TokenBridge.Action

variable {s t u : Store} {block : Block} {r : Response} {order : Order} {e : Effect}
  {Used : Asset → Prop}

def Transfer.under (name : String) (x : Transfer) : Nat :=
  if x.asset.key = name then x.amount.val + x.fee.val else 0

def Store.heldUnder (s : Store) (name : String) : Nat :=
  (s.held.map (Transfer.under name)).sum + (s.locked.getD name .zero).val

def Order.broughtUnder (order : Order) (name : String) : Nat :=
  (order.brings.map fun e => if e.1.key = name then e.2.val else 0).sum

theorem EscrowKept.heldUnder (h : EscrowKept s t) (name : String) :
    t.heldUnder name = s.heldUnder name := by
  rw [Store.heldUnder, Store.heldUnder, h.held, h.locked]

theorem Exchanged.heldUnder {out : List Transfer} (h : Exchanged [] out s t)
    (books : BooksKept s t) (name : String) :
    (out.map (Transfer.under name)).sum + t.heldUnder name = s.heldUnder name := by
  have sums := h.sums (Transfer.under name)
  rw [List.map_nil, List.sum_nil] at sums
  rw [Store.heldUnder, Store.heldUnder, books.locked]
  omega

theorem Holding.batchUnder {k : Address × UInt64} {b : Batch} {p : Pairing} (h : Holding s)
    (reg : Registered Used s) (found : s.batches.get? k = some b)
    (paired : s.pairings.get? k.1 = some p) (name : String) :
    (b.transfers.map (Transfer.under name)).sum = if p.asset.key = name then b.weight else 0 :=
  sumOfOne fun x inside => by rw [h.batchKey reg found paired x inside]

theorem Holding.batchWithin {k : Address × UInt64} {b : Batch} {p : Pairing} (h : Holding s)
    (reg : Registered Used s) (found : s.batches.get? k = some b)
    (paired : s.pairings.get? k.1 = some p) :
    (s.locked.getD p.asset.key .zero).val + b.weight ≤ s.heldUnder p.asset.key := by
  have whole := h.batchUnder reg found paired p.asset.key
  have part := ((Batching.batchedErase found).map (Transfer.under p.asset.key)).sum_eq
  rw [if_pos rfl] at whole
  rw [List.map_append, List.sum_append, whole] at part
  unfold Store.heldUnder Store.held Store.batched
  rw [List.map_append, List.sum_append]
  omega

theorem lockedUnder (key name : String) (amount : Amount) :
    Store.heldUnder { s with locked := s.locked.insert key amount } name =
      (s.held.map (Transfer.under name)).sum +
        if key = name then amount.val else (s.locked.getD name .zero).val := by
  show (s.held.map (Transfer.under name)).sum + ((s.locked.insert key amount).getD name .zero).val = _
  simp only [SortedMap.getD, SortedMap.getInsert]
  split <;> rfl

theorem Effected.heldUnder {event : Event} (h : Holding s) (reg : Registered Used s)
    (effected : Effected s event e t) (name : String) : t.heldUnder name ≤ s.heldUnder name := by
  cases effected with
  | idle kept _ _ => exact Nat.le_of_eq (kept.heldUnder name)
  | @released token amount sender receiver p whom rest _ _ left =>
    have taken := subVal left
    rw [lockedUnder, Store.heldUnder]
    split
    · rename_i same
      subst same
      omega
    · exact Nat.le_refl _
  | paired => exact Nat.le_refl _
  | @executed nonce token b total u _ _ found sum left _ moved settled =>
    have gone := left.heldUnder moved.books name
    cases settled with
    | unpaired => omega
    | burned => omega
    | @locked p after paired _ inRange =>
      -- The whole batch is of the paired name, so what is locked is what left the escrow of that name.
      rw [moved.books.pairings] at paired
      rw [h.batchUnder reg found paired, ← batchTotal sum] at gone
      have added := addVal inRange
      rw [lockedUnder]
      unfold Store.heldUnder at gone
      split
      · rename_i same
        subst same
        rw [if_pos rfl] at gone
        unfold Store.heldUnder
        omega
      · rename_i other
        rw [if_neg other] at gone
        unfold Store.heldUnder
        omega

theorem Observing.passHeldUnder {view : StakeView} {os : List Observation} (h : Holding s)
    (reg : Registered (fun _ => True) s) (pass : Pass view block s os t) (name : String) :
    t.heldUnder name ≤ s.heldUnder name := by
  induction pass with
  | rest => exact Nat.le_refl _
  | @observe s u t nonce fingerprint a e later _ _ _ effect _ ih =>
    have marked : EscrowKept s (mark nonce fingerprint a s) := markEscrow
    have first := marked.exchanged h
    have reg' := marked.registered reg
    have effected := takeEffectEffected first.holding effect
    have now := effected.heldUnder first.holding reg' name
    rw [marked.heldUnder] at now
    exact Nat.le_trans (ih (effected.exchanged first.holding).1.holding
      (effected.registered reg' fun _ _ => trivial)) now

theorem Movement.heldUnder (h : Holding s) (reg : Registered (fun _ => True) s)
    (moved : Movement block s order r t) (name : String) :
    t.heldUnder name ≤ s.heldUnder name + order.broughtUnder name := by
  have kept (same : t.heldUnder name = s.heldUnder name) :
      t.heldUnder name ≤ s.heldUnder name + order.broughtUnder name := by
    rw [same]
    exact Nat.le_add_right _ _
  cases moved with
  | administered _ _ moved _ _ => exact kept (moved.escrow.heldUnder name)
  | reported _ after _ _ =>
    have reported := (Directory.reportMoves order.reports s).escrow
    rw [← after] at reported
    exact kept (reported.heldUnder name)
  | @entered x sender asset sent fee method brings _ _ _ entered _ after =>
    have sums := (Pool.enterExchanged h entered).sums (Transfer.under name)
    have covered := entered.covered
    simp only [List.map_cons, List.map_nil, List.sum_cons, List.sum_nil, Nat.zero_add] at sums
    rw [after, Store.heldUnder, sums]
    simp only [Store.heldUnder, Order.broughtUnder, brings, Transfer.under, entered.inAsset, Pool.add,
      List.map_cons, List.map_nil, List.sum_cons, List.sum_nil]
    split
    · omega
    · omega
  | @cancelled caller x total id _ here _ _ _ _ after =>
    have number := h.indexed.keyed id x here
    subst number after
    have gone := (Pool.removeExchanged h here).heldUnder ⟨rfl, rfl, rfl⟩ name
    omega
  | assembled _ _ made _ _ =>
    have same := (Batching.assembleExchanged h made).heldUnder (Batching.assembleBooks made) name
    rw [List.map_nil, List.sum_nil, Nat.zero_add] at same
    exact kept same
  | registered _ _ _ after _ _ =>
    obtain ⟨_, unparked⟩ := Registry.unparkAllMoves _ _ _
    refine kept ?_
    rw [after, unparked]
    rfl
  | @observed u v w os dissolved _ _ voted pass returned moved _ =>
    have first := voted.escrow.exchanged h
    have passed := Observing.passHeldUnder first.holding (voted.escrow.registered reg) pass name
    have holding := Observing.passHolding first.holding pass
    have back := (Batching.dissolvesExchanged holding returned).1.heldUnder
      (Batching.dissolvesMove returned).books name
    rw [List.map_nil, List.sum_nil, Nat.zero_add] at back
    rw [voted.escrow.heldUnder] at passed
    rw [moved.escrow.heldUnder, back]
    exact Nat.le_trans passed (Nat.le_add_right _ _)

namespace Journal

variable {j : Journal}

def broughtUnder (j : Journal) (name : String) : Nat :=
  (j.deeds.map fun d => d.order.broughtUnder name).sum

theorem Run.heldUnder (run : Run j) (name : String) : j.store.heldUnder name ≤ j.broughtUnder name := by
  refine Run.keeps ?setUp ?deed run
  case setUp =>
    intro block m r t yields
    rw [(Contract.setUpEscrow yields).1.heldUnder name]
    exact Nat.zero_le _
  case deed =>
    intro j block order r t past ih later yields
    have step := (Chain.laterMovement later yields).heldUnder past.accounted.holding
      (past.registered fun _ _ => trivial) name
    simp only [broughtUnder, List.map_append, List.sum_append, List.map_cons, List.map_nil,
      List.sum_cons, List.sum_nil, Nat.add_zero] at ih ⊢
    omega

end Journal

end TokenBridge
