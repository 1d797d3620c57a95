import TokenBridge.Proofs.Escrow.Registered
import TokenBridge.Proofs.Escrow.Sums
/-!
Conservation of escrow. What came in of an asset and has not gone out is held: in transfers of the pool and the
batches or as a locked balance. The registry tells assets by name alone, so this needs that no native
denomination is called like a cw20 contract.
-/
namespace TokenBridge

open TokenBridge.Action

variable {s t u v : Store} {block : Block} {r : Response} {order : Order} {e : Effect} {a : Asset}
  {Used : Asset → Prop}

theorem Holding.batchKey {k : Address × UInt64} {b : Batch} {p : Pairing} (h : Holding s)
    (reg : Registered Used s) (found : s.batches.get? k = some b)
    (paired : s.pairings.get? k.1 = some p) : ∀ x ∈ b.transfers, x.asset.key = p.asset.key := by
  intro x inside
  have listed := h.registered x (List.mem_append_right _ (Batching.memBatched found inside))
  rw [h.filed.oneToken _ _ b found x inside] at listed
  obtain ⟨q, paired', named⟩ := reg.ofAsset _ _ listed
  rw [paired] at paired'
  cases paired'
  exact named.symm

theorem Holding.batchAsset {k : Address × UInt64} {b : Batch} {p : Pairing} (h : Holding s)
    (reg : Registered Used s) (told : ∀ a b, Used a → Used b → a.key = b.key → a = b)
    (found : s.batches.get? k = some b) (paired : s.pairings.get? k.1 = some p) :
    ∀ x ∈ b.transfers, x.asset = p.asset := by
  intro x inside
  -- The registry may list the token under another asset of the same name; only `told` rules that out.
  have held : x ∈ s.held := List.mem_append_right _ (Batching.memBatched found inside)
  exact told _ _ (reg.held x held) (reg.used _ _ paired) (h.batchKey reg found paired x inside)

theorem Holding.batchEmpty {k : Address × UInt64} {b : Batch} (h : Holding s)
    (reg : Registered Used s) (found : s.batches.get? k = some b)
    (missing : s.pairings.get? k.1 = none) : b.transfers = [] := by
  refine List.eq_nil_iff_forall_not_mem.2 fun x inside => ?_
  have listed := h.registered x (List.mem_append_right _ (Batching.memBatched found inside))
  rw [h.filed.oneToken _ _ b found x inside] at listed
  obtain ⟨q, paired, _⟩ := reg.ofAsset _ _ listed
  rw [missing] at paired
  cases paired

theorem Settled.balance {token : Address} {nonce : UInt64} {b : Batch} {total : Amount}
    (h : Holding s) (reg : Registered Used s)
    (told : ∀ a b, Used a → Used b → a.key = b.key → a = b)
    (found : s.batches.get? (token, nonce) = some b) (sum : b.total? = some total)
    (left : Exchanged [] b.transfers s u) (moved : PoolMoved s u) (settled : Settled token total u e t)
    (a : Asset) : paidOut e.messages a + t.holds a = s.holds a := by
  have gone := left.holds moved.books a
  have pairings := moved.books.pairings
  cases settled with
  | unpaired missing =>
    rw [pairings] at missing
    rw [h.batchEmpty reg found missing, List.map_nil, List.sum_nil] at gone
    exact gone
  | @locked p locks paired ours inRange =>
    rw [pairings] at paired
    rw [worthOfOne (h.batchAsset reg told found paired), ← batchTotal sum] at gone
    have added := addVal inRange
    cases asset : p.asset with
    | cw20 contract =>
      have foreign := reg.ofCw20 _ p contract paired asset
      rw [foreign] at ours
      cases ours
    | native denom =>
      rw [asset] at gone added
      unfold Store.holds at gone
      show 0 + (u.escrowed a + Store.lockedOf _ a) = s.escrowed a + s.lockedOf a
      rw [show (Asset.native denom).key = denom from rfl] at added ⊢
      rw [lockedInsert]
      split
      · rename_i same
        subst same
        have before : (u.locked.getD denom .zero).val = u.lockedOf (.native denom) := rfl
        rw [if_pos rfl] at gone
        omega
      · rename_i other
        rw [if_neg other] at gone
        omega
  | @burned p paired foreign =>
    rw [pairings] at paired
    rw [worthOfOne (h.batchAsset reg told found paired), ← batchTotal sum] at gone
    cases asset : p.asset with
    | native denom =>
      have ours := reg.ofNative _ p denom paired asset
      rw [ours] at foreign
      cases foreign
    | cw20 contract =>
      rw [asset] at gone
      rw [← gone]
      exact congrArg (· + t.holds a) (paidOutBurn contract total)

theorem Effected.balance {event : Event} (h : Holding s) (reg : Registered Used s)
    (told : ∀ a b, Used a → Used b → a.key = b.key → a = b) (effected : Effected s event e t)
    (a : Asset) : paidOut e.messages a + t.holds a = s.holds a := by
  cases effected with
  | idle kept _ minting => rw [paidOutMinting minting, kept.holds, Nat.zero_add]
  | @released token amount sender receiver p whom rest paired ours left =>
    have taken := subVal left
    show paidOut [p.asset.payout whom amount] a + (s.escrowed a + Store.lockedOf _ a) =
      s.escrowed a + s.lockedOf a
    cases asset : p.asset with
    | cw20 contract =>
      have foreign := reg.ofCw20 _ p contract paired asset
      rw [foreign] at ours
      cases ours
    | native denom =>
      rw [asset] at taken
      rw [paidOutPayout, show (Asset.native denom).key = denom from rfl, lockedInsert]
      split
      · rename_i same
        subst same
        have before : (s.locked.getD denom .zero).val = s.lockedOf (.native denom) := rfl
        rw [show (Asset.native denom).key = denom from rfl] at taken
        omega
      · omega
  | paired => exact Nat.zero_add _
  | executed found sum left _ moved settled =>
    exact Settled.balance h reg told found sum left moved settled a

theorem Observing.passBalance {view : StakeView} {os : List Observation} (h : Holding s)
    (reg : Registered Used s) (told : ∀ a b, Used a → Used b → a.key = b.key → a = b)
    (assets : ∀ o ∈ os, ∀ a ∈ o.claim.event.assets, Used a) (pass : Pass view block s os t)
    (a : Asset) : paidOut (os.flatMap fun o => o.effect.messages) a + t.holds a = s.holds a := by
  induction pass with
  | rest s => exact Nat.zero_add _
  | @observe s u t nonce fingerprint x e later _ _ _ effect _ ih =>
    have marked : EscrowKept s (mark nonce fingerprint x s) := markEscrow
    have first := marked.exchanged h
    have effected := takeEffectEffected first.holding effect
    have between := effected.registered (marked.registered reg) (assets _ (List.mem_cons_self ..))
    have now := effected.balance first.holding (marked.registered reg) told a
    have rest := ih (effected.exchanged first.holding).1.holding between
      fun o found => assets o (List.mem_cons_of_mem _ found)
    rw [marked.holds] at now
    rw [List.flatMap_cons, paidOutAppend]
    dsimp only
    omega

end TokenBridge
