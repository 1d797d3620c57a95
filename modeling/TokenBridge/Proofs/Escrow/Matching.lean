import TokenBridge.Proofs.Escrow.Solvency
/-!
Whether escrow is of the asset that its token is paired with. The registry finds a token by the name of an asset
and not by its kind, so they agree up to names: another asset is paired only where a native denomination and a
cw20 contract of one name are both in use.
-/
namespace TokenBridge

open TokenBridge.Action

variable {s t : Store} {e : Effect} {Used : Asset → Prop}

def Asset.IsNative (a : Asset) : Prop := ∃ denom, a = .native denom

def Asset.Settles (a : Asset) (weight : Nat) (s : Store) (e : Effect) (t : Store) : Prop :=
  match a with
  | .native denom => e = .applied [] ∧
      ∃ sum : Amount, sum.val = (s.locked.getD denom .zero).val + weight ∧
        t.locked = s.locked.insert denom sum
  | .cw20 contract => t.locked = s.locked ∧
      ∃ total : Amount, total.val = weight ∧
        e = .applied (if total.isZero then [] else [.call contract (.burn total)])

theorem Registered.origin {k : Address} {p : Pairing} (reg : Registered Used s)
    (paired : s.pairings.get? k = some p) : p.ofThisChain = true ↔ p.asset.IsNative := by
  constructor
  · intro ours
    cases asset : p.asset with
    | native denom => exact ⟨denom, rfl⟩
    | cw20 contract =>
      rw [reg.ofCw20 k p contract paired asset] at ours
      cases ours
  · rintro ⟨denom, native⟩
    exact reg.ofNative k p denom paired native

theorem Holding.pairedByName {x : Transfer} (h : Holding s) (reg : Registered Used s)
    (held : x ∈ s.held) :
    ∃ p, s.pairings.get? x.token = some p ∧ p.asset.key = x.asset.key ∧
      (p.asset = x.asset ∨ Used (.native x.asset.key) ∧ Used (.cw20 ⟨x.asset.key⟩)) := by
  obtain ⟨p, paired, named⟩ := reg.ofAsset _ _ (h.registered x held)
  exact ⟨p, paired, named, Asset.sameOrMixed named (reg.used _ p paired) (reg.held x held)⟩

theorem Batching.executedSettles {token : Address} {nonce : UInt64} {batch : Batch} {p : Pairing}
    (reg : Registered Used s) (found : s.batches.get? (token, nonce) = some batch)
    (paired : s.pairings.get? token = some p) (done : Yields (executed token nonce) s e t) :
    p.asset.Settles batch.weight s e t := by
  rcases executedYields done with ⟨missing, _⟩ | ⟨c, u, total, found', sum, older, last⟩
  · rw [missing] at found
    cases found
  · rw [found] at found'
    cases found'
    have whole := batchTotal sum
    obtain ⟨_, pairings, locked⟩ := (clearedMoves nonce older).books
    rw [pairings, paired] at last
    have origin := reg.origin paired
    rcases settleYields last with ⟨ours, after, added, rfl, rfl⟩ | ⟨foreign, rfl, rfl⟩
    · obtain ⟨denom, native⟩ := origin.1 ours
      rw [locked, native] at added
      rw [native]
      refine ⟨rfl, after, ?_, by rw [← locked]; rfl⟩
      rw [addVal added, whole]
      rfl
    · cases asset : p.asset with
      | native denom =>
        rw [origin.2 ⟨denom, asset⟩] at foreign
        cases foreign
      | cw20 contract => exact ⟨locked, total, whole, rfl⟩

namespace Journal

variable {j : Journal}

/-- At every point of a run each transfer held has its token paired with an asset of the same name, which is
another asset only where both kinds of that name are in use; and an executed batch settles the paired asset. -/
theorem Run.escrowMatches (run : Run j) :
    (∀ x ∈ j.store.held, ∃ p, j.store.pairings.get? x.token = some p ∧
      p.asset.key = x.asset.key ∧ (p.ofThisChain = true ↔ p.asset.IsNative) ∧
      (p.asset = x.asset ∨ .native x.asset.key ∈ j.assets ∧ .cw20 ⟨x.asset.key⟩ ∈ j.assets)) ∧
    ∀ token nonce batch e t, j.store.batches.get? (token, nonce) = some batch →
      Yields (Batching.executed token nonce) j.store e t →
      ∀ x ∈ batch.transfers, ∃ p, j.store.pairings.get? token = some p ∧
        p.asset.key = x.asset.key ∧
        (p.asset = x.asset ∨ .native x.asset.key ∈ j.assets ∧ .cw20 ⟨x.asset.key⟩ ∈ j.assets) ∧
        p.asset.Settles batch.weight j.store e t := by
  have holding := run.accounted.holding
  have reg : Registered (· ∈ j.assets) j.store := run.registered fun _ used => used
  refine ⟨fun x held => ?_, fun token nonce batch e t found done x inside => ?_⟩
  · obtain ⟨p, paired, named, same⟩ := holding.pairedByName reg held
    exact ⟨p, paired, named, reg.origin paired, same⟩
  · have held : x ∈ j.store.held := List.mem_append_right _ (Batching.memBatched found inside)
    obtain ⟨p, paired, named, same⟩ := holding.pairedByName reg held
    rw [holding.filed.oneToken _ _ batch found x inside] at paired
    exact ⟨p, paired, named, same, Batching.executedSettles reg found paired done⟩

/-- A denomination that is called like a cw20 contract is paired, and the contract hands tokens over. -/
def mixed : Journal :=
  opened.deliverAll
    [(⟨102, 3⟩, .execute ⟨⟨"orch"⟩, []⟩
        (.submitClaim ⟨1, 50, .tokenDeployed "token" .zero "Token" "TKN" 6⟩)),
      (⟨103, 4⟩, .execute ⟨⟨"token"⟩, []⟩ (.receive "alice" (.small 100) payload))]
where
  payload : Blob := ⟨Text.utf8 (toJson
    (Pool.Handover.mk "0x0000000000000000000000000000000000000002" .zero)).write⟩

theorem mixedRun : Run mixed := openedRun.deliverAll (by decide)

def mixedSettled : Journal :=
  mixed.deliverAll
    [(⟨104, 5⟩, .execute ⟨⟨"carol"⟩, []⟩
        (.requestBatch "0x0000000000000000000000000000000000000000" none)),
      (⟨105, 6⟩, .execute ⟨⟨"orch"⟩, []⟩ (.submitClaim ⟨2, 60, .batchExecuted 1 .zero⟩))]

theorem mixedHeld :
    (∃ x ∈ mixed.store.held, x.asset = .cw20 ⟨"token"⟩ ∧
      ∃ p ∈ mixed.store.pairings.get? x.token, p.asset = .native "token") ∧
    mixedSettled.brought (.native "token") = 0 ∧
      (mixedSettled.store.locked.getD "token" .zero).val = 100 := by
  decide +kernel

theorem mixedMatchesByName :
    ∃ x ∈ mixed.store.held, x.asset = .cw20 ⟨"token"⟩ ∧
      ∃ p, mixed.store.pairings.get? x.token = some p ∧ p.asset.key = "token" ∧
        p.ofThisChain = true ∧ .native "token" ∈ mixed.assets ∧ .cw20 ⟨"token"⟩ ∈ mixed.assets := by
  obtain ⟨⟨x, held, asset, p, paired, native⟩, _⟩ := mixedHeld
  obtain ⟨q, found, named, origin, same⟩ := (Run.escrowMatches mixedRun).1 x held
  cases Option.some.inj (paired.symm.trans found)
  rw [asset] at named same
  have apart : p.asset ≠ .cw20 ⟨"token"⟩ := fun cw20 => by
    rw [native] at cw20
    cases cw20
  exact ⟨x, held, asset, p, paired, named, origin.2 ⟨"token", native⟩, same.resolve_left apart⟩

theorem mixedUnmatched :
    Run mixed ∧
      (∃ x ∈ mixed.store.held, ∃ p, mixed.store.pairings.get? x.token = some p ∧ p.asset ≠ x.asset) ∧
      Run mixedSettled ∧ mixedSettled.brought (.native "token") = 0 ∧
      (mixedSettled.store.locked.getD "token" .zero).val = 100 := by
  obtain ⟨⟨x, held, asset, p, paired, native⟩, unbrought, locked⟩ := mixedHeld
  refine ⟨mixedRun, ⟨x, held, p, paired, fun same => ?_⟩, mixedRun.deliverAll (by decide), unbrought,
    locked⟩
  rw [native, asset] at same
  cases same

end Journal

end TokenBridge
