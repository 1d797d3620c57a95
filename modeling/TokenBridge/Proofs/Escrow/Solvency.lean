import TokenBridge.Proofs.Escrow.Conservation
/-!
Solvency over whole runs: of every asset, what was brought in less what was paid out or burned is what the bridge
holds.
-/
namespace TokenBridge

open TokenBridge.Action

variable {s t : Store} {block : Block} {r : Response} {order : Order} {Used : Asset → Prop}

theorem Order.broughtStill (still : order.Still) (a : Asset) : order.brought a = 0 := by
  simp [brought, still.brings]

theorem EscrowKept.balance (kept : EscrowKept s t) (still : order.Still) (silent : r.messages = [])
    (a : Asset) : order.brought a + s.holds a = paidOut r.messages a + t.holds a := by
  rw [Order.broughtStill still, kept.holds, silent]
  rfl

theorem Movement.balance (h : Holding s) (reg : Registered Used s)
    (told : ∀ a b, Used a → Used b → a.key = b.key → a = b)
    (assets : ∀ a ∈ (Deed.mk s block order r t).assets, Used a)
    (moved : Movement block s order r t) (a : Asset) :
    order.brought a + s.holds a = paidOut r.messages a + t.holds a := by
  cases moved with
  | administered still _ moved silent _ => exact moved.escrow.balance still silent a
  | reported still after silent _ =>
    have kept := (Directory.reportMoves order.reports s).escrow
    rw [← after] at kept
    exact kept.balance still silent a
  | @entered x sender asset sent fee method brings _ _ _ entered answer after =>
    have sums := (Pool.enterExchanged h entered).escrowed a
    have covered := entered.covered
    simp only [List.map_cons, List.map_nil, List.sum_cons, List.sum_nil, Transfer.worth,
      entered.inAsset] at sums
    rw [answer, after]
    show order.brought a + (s.escrowed a + s.lockedOf a) =
      0 + (Store.escrowed _ a + s.lockedOf a)
    simp only [Order.brought, brings, List.map_cons, List.map_nil, List.sum_cons, List.sum_nil]
    split at sums
    · rename_i same
      rw [if_pos same]
      omega
    · rename_i other
      rw [if_neg other]
      omega
  | @cancelled caller x total id order here own sum paid _ after =>
    have number := h.indexed.keyed id x here
    subst number order after
    have gone := (Pool.removeExchanged h here).holds ⟨rfl, rfl, rfl⟩ a
    rw [List.map_cons, List.map_nil, List.sum_cons, List.sum_nil, Transfer.worth, ← totalVal sum] at gone
    rw [paid, paidOutPayout, ← gone]
    exact Nat.zero_add _
  | assembled still _ made silent _ =>
    have same := (Batching.assembleExchanged h made).holds (Batching.assembleBooks made) a
    rw [List.map_nil, List.sum_nil] at same
    rw [Order.broughtStill still, silent, ← same]
    exact Nat.zero_add _
  | @registered caller written cw20 token contract order valid free after minted _ =>
    obtain ⟨parked, unparked⟩ := Registry.unparkAllMoves token (Registry.parkedFor s token)
      (Registry.pair ⟨token, .cw20 contract, false⟩ s)
    rw [unparked] at after
    subst order after
    rw [minted, paidOutMinting]
    · rfl
    · intro m found
      obtain ⟨d, _, rfl⟩ := List.mem_map.1 found
      exact ⟨contract, d.receiver, d.amount, rfl⟩
  | @observed u v w os dissolved still _ voted pass returned moved answers =>
    have first := voted.escrow.exchanged h
    -- Only the pass pays out; what the block dissolves goes back to the pool and stays in escrow.
    have now := Observing.passBalance first.holding (voted.escrow.registered reg) told
      (Deed.deployedUsed answers assets) pass a
    have holding := Observing.passHolding first.holding pass
    have same := (Batching.dissolvesExchanged holding returned).1.holds
      (Batching.dissolvesMove returned).books a
    rw [List.map_nil, List.sum_nil] at same
    rw [voted.escrow.holds, ← same] at now
    rw [Order.broughtStill still, answers.messages, moved.escrow.holds]
    omega

namespace Journal

variable {j : Journal}

def brought (j : Journal) (a : Asset) : Nat := (j.deeds.map fun d => d.order.brought a).sum

def sent (j : Journal) (denom : String) : Nat := (j.messages.map fun m => m.sends denom).sum

def transferred (j : Journal) (contract : Account) : Nat :=
  (j.messages.map fun m => m.transfers contract).sum

def burned (j : Journal) (contract : Account) : Nat :=
  (j.messages.map fun m => m.burns contract).sum

theorem Run.conserves (run : Run j) (told : ∀ a b, Used a → Used b → a.key = b.key → a = b)
    (assets : ∀ a ∈ j.assets, Used a) :
    Registered Used j.store ∧ ∀ a, j.brought a = paidOut j.messages a + j.store.holds a := by
  refine ⟨run.registered assets, fun a => ?_⟩
  revert assets
  refine Run.keeps ?setUp ?deed run
  case setUp =>
    intro block m r t yields _
    obtain ⟨kept, silent, _⟩ := Contract.setUpEscrow yields
    have nothing := kept.holds a
    simp only [brought, messages, Order.brought, Order.brings, List.map_cons, List.map_nil,
      List.sum_cons, List.sum_nil, List.flatMap_cons, List.flatMap_nil, silent, List.append_nil]
    rw [nothing]
    cases a <;> rfl
  case deed =>
    intro j block order r t past ih later yields assets
    simp only [Journal.assets, List.flatMap_append, List.flatMap_cons, List.flatMap_nil,
      List.append_nil, List.mem_append] at assets
    have reg := past.registered fun a used => assets a (.inl used)
    have before := ih fun a used => assets a (.inl used)
    have now := (Chain.laterMovement later yields).balance past.accounted.holding reg told
      (fun a used => assets a (.inr used)) a
    simp only [brought, messages, List.map_append, List.sum_append, List.map_cons, List.map_nil,
      List.sum_cons, List.sum_nil, List.flatMap_append, List.flatMap_cons, List.flatMap_nil,
      List.append_nil, paidOutAppend] at before ⊢
    omega

theorem Run.escrowConserved (run : Run j) (apart : j.NamesApart) :
    (∀ denom, j.brought (.native denom) =
      j.sent denom + j.store.escrowed (.native denom) + (j.store.locked.getD denom .zero).val) ∧
    ∀ contract, j.brought (.cw20 contract) =
      j.transferred contract + j.burned contract + j.store.escrowed (.cw20 contract) := by
  have balance := (run.conserves (fun _ _ => apart.told) fun _ used => used).2
  refine ⟨fun denom => ?_, fun contract => ?_⟩
  · rw [balance, Nat.add_assoc]
    rfl
  · rw [balance]
    have both : paidOut j.messages (.cw20 contract) = j.transferred contract + j.burned contract := by
      simp [paidOut, LedgerMessage.releases, transferred, burned, List.sum_map_add]
    rw [both]
    rfl

theorem tradedConserved :
    traded.brought (.native "atom") = 50 + traded.store.escrowed (.native "atom") + 100 := by
  have facts : traded.assets = List.replicate 4 (.native "atom") ∧ traded.sent "atom" = 50 ∧
      (traded.store.locked.getD "atom" .zero).val = 100 := by decide +kernel
  obtain ⟨assets, sent, locked⟩ := facts
  have apart : traded.NamesApart := by
    intro denom contract _ used
    rw [assets] at used
    cases List.eq_of_mem_replicate used
  have balance := (Run.escrowConserved tradedRun apart).1 "atom"
  rw [sent, locked] at balance
  exact balance

end Journal

end TokenBridge
