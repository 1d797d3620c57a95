import TokenBridge.Proofs.Deposits.Parked
import TokenBridge.Proofs.Escrow.Matching
import TokenBridge.Proofs.Escrow.Shape
/-!
Pairings are for good. A token and an asset are paired with each other where neither is paired yet, and nothing undoes
that. So the token of all that is held stays registered, and no effect ever fails for want of its pairing.
-/
namespace TokenBridge

open TokenBridge.Action

variable {s t u : Store} {block : Block} {r : Response} {order : Order} {e : Effect} {p : Pairing}
  {token : Address} {nonce : UInt64} {Used : Asset → Prop}

structure RegistryKept (s t : Store) : Prop where
  tokenOf : t.tokenOf = s.tokenOf
  pairings : t.pairings = s.pairings

theorem RegistryKept.here : RegistryKept s s := ⟨rfl, rfl⟩

theorem RegistryKept.trans (h : RegistryKept s t) (h' : RegistryKept t u) : RegistryKept s u :=
  ⟨h'.tokenOf.trans h.tokenOf, h'.pairings.trans h.pairings⟩

theorem BooksKept.registry (h : BooksKept s t) : RegistryKept s t := ⟨h.tokenOf, h.pairings⟩

theorem EscrowKept.registry (h : EscrowKept s t) : RegistryKept s t := ⟨h.tokenOf, h.pairings⟩

def TokensKept (s t : Store) : Prop :=
  ∀ name k, s.tokenOf.get? name = some k → t.tokenOf.get? name = some k

def Registry.BothWays (s : Store) : Prop :=
  ∀ k p, s.pairings.get? k = some p → p.token = k ∧ s.tokenOf.get? p.asset.key = some k

theorem Registry.BothWays.empty : BothWays .empty := fun _ _ found => (nomatch found)

theorem RegistryKept.bothWays (h : RegistryKept s t) (inv : Registry.BothWays s) : Registry.BothWays t := by
  unfold Registry.BothWays
  rw [h.tokenOf, h.pairings]
  exact inv

theorem Registry.pairBothWays (inv : BothWays s) (free : pairingFault? s p.token p.asset = none) :
    BothWays (pair p s) := by
  intro k q found
  simp only [pair, SortedMap.getInsert] at found
  split at found
  · rename_i same
    cases found
    exact ⟨same, by simp [pair, same]⟩
  · obtain ⟨listed, named⟩ := inv k q found
    exact ⟨listed, pairTokens free _ _ named⟩

inductive Registering (s : Store) : Store → Prop where
  | kept {t : Store} (kept : RegistryKept s t) : Registering s t
  | paired {t u : Store} {p : Pairing} (past : Registering s t)
      (free : Registry.pairingFault? t p.token p.asset = none)
      (after : RegistryKept (Registry.pair p t) u) : Registering s u

namespace Registering

theorem here : Registering s s := .kept .here

theorem keep (h : Registering s t) (kept : RegistryKept t u) : Registering s u := by
  cases h with
  | kept before => exact .kept (before.trans kept)
  | paired past free after => exact .paired past free (after.trans kept)

theorem trans (h : Registering s t) (h' : Registering t u) : Registering s u := by
  induction h' with
  | kept kept => exact h.keep kept
  | paired _ free after ih => exact .paired ih free after

theorem pairings (h : Registering s t) : PairingsKept s t := by
  induction h with
  | kept kept =>
    intro k p found
    rw [kept.pairings]
    exact found
  | paired _ free after ih =>
    intro k q found
    exact insertPaired (Registry.pairingFree free).1 after.pairings k q (ih k q found)

theorem tokens (h : Registering s t) : TokensKept s t := by
  induction h with
  | kept kept =>
    intro name k found
    rw [kept.tokenOf]
    exact found
  | paired _ free after ih =>
    intro name k found
    rw [after.tokenOf]
    exact Registry.pairTokens free name k (ih name k found)

theorem bothWays (h : Registering s t) (inv : Registry.BothWays s) : Registry.BothWays t := by
  induction h with
  | kept kept => exact kept.bothWays inv
  | paired _ free after ih => exact after.bothWays (Registry.pairBothWays ih free)

end Registering

theorem Effected.registering {event : Event} (effected : Effected s event e t) : Registering s t := by
  cases effected with
  | idle kept => exact .kept kept.registry
  | released => exact .kept ⟨rfl, rfl⟩
  | paired free => exact .paired .here free .here
  | executed _ _ _ _ moved settled =>
    have books := moved.books.registry
    cases settled with
    | unpaired | locked | burned => exact .kept ⟨books.tokenOf, books.pairings⟩

theorem Observing.passRegistering {view : StakeView} {os : List Observation} (h : Holding s)
    (pass : Pass view block s os t) : Registering s t := by
  induction pass with
  | rest s => exact .here
  | @observe s u t nonce fingerprint a e later _ _ _ effect _ ih =>
    have marked : EscrowKept s (mark nonce fingerprint a s) := markEscrow
    have holding := (marked.exchanged h).holding
    have effected := takeEffectEffected holding effect
    have first : Registering s u := (Registering.kept marked.registry).trans effected.registering
    exact first.trans (ih (effected.exchanged holding).1.holding)

theorem Movement.registering (h : Holding s) (moved : Movement block s order r t) : Registering s t := by
  cases moved with
  | administered _ _ moved => exact .kept moved.escrow.registry
  | reported _ after =>
    rw [after]
    exact .kept (Directory.reportMoves order.reports s).escrow.registry
  | entered _ _ _ _ _ _ after =>
    rw [after]
    exact .kept ⟨rfl, rfl⟩
  | cancelled _ _ _ _ _ _ after =>
    rw [after]
    exact .kept ⟨rfl, rfl⟩
  | assembled _ _ made => exact .kept (Batching.assembleBooks made).registry
  | registered _ _ free after =>
    obtain ⟨_, unparked⟩ := Registry.unparkAllMoves _ _ _
    rw [after, unparked]
    exact .paired .here free ⟨rfl, rfl⟩
  | observed _ _ voted pass returned moved =>
    have marked := voted.escrow.exchanged h
    have passed : Registering s _ :=
      (Registering.kept voted.escrow.registry).trans (Observing.passRegistering marked.holding pass)
    exact (passed.keep (Batching.dissolvesMove returned).books.registry).keep moved.escrow.registry

def Effect.WellPaired : Effect → Prop
  | failed (.unpaired _) => False
  | failed (.notMintable _) => False
  | _ => True

theorem Effect.WellPaired.registered (h : e.WellPaired) (token : Address) : e ≠ .failed (.unpaired token) := by
  rintro rfl
  exact h

theorem Effect.WellPaired.mintable (h : e.WellPaired) (denom : String) : e ≠ .failed (.notMintable denom) := by
  rintro rfl
  exact h

theorem Registry.payOutPaired {receiver : Account} {amount : Amount} (reg : Registered Used s)
    (paired : s.pairings.get? token = some p) (paid : Yields (payOut p receiver amount) s e t) :
    e.WellPaired := by
  rcases payOutYields paid with ⟨_, _, _, _, rfl⟩ | ⟨_, _, rfl⟩ | ⟨foreign, _, rfl⟩
  · trivial
  · trivial
  · cases asset : p.asset with
    | cw20 contract => trivial
    | native denom =>
      rw [reg.ofNative token p denom paired asset] at foreign
      cases foreign

theorem Batching.executedPaired (h : Holding s) (filled : Filled s) (reg : Registered Used s)
    (done : Yields (executed token nonce) s e t) : e.WellPaired := by
  rcases executedYields done with ⟨_, rfl, _⟩ | ⟨b, u, _, found, _, older, last⟩
  · trivial
  · split at last
    · rename_i missing
      -- Without a pairing the batch could hold no transfer, but no batch is empty.
      rw [(clearedMoves nonce older).books.pairings] at missing
      exact absurd (h.batchEmpty reg found missing) (filled token nonce b found).2
    · rcases settleYields last with ⟨_, _, _, _, rfl⟩ | ⟨_, _, rfl⟩
      · trivial
      · trivial

theorem Observing.takeEffectPaired {claim : Claim} (h : Holding s) (filled : Batching.Filled s)
    (reg : Registered Used s) (done : Yields (takeEffect block claim) s e t) : e.WellPaired := by
  unfold takeEffect at done
  split at done
  · rcases Registry.depositedYields done with ⟨_, rfl, _⟩ | ⟨a, _, ⟨p, paired, paid⟩ | ⟨_, rfl, _⟩⟩
    · trivial
    · exact Registry.payOutPaired reg paired paid
    · trivial
  · exact Batching.executedPaired h filled reg done
  · obtain ⟨_, rfl, _⟩ := callExecutedYields done
    trivial
  · rcases Registry.deployedYields done with ⟨_, _, rfl, _⟩ | ⟨_, rfl, _⟩
    · trivial
    · trivial
  · obtain ⟨rfl, _⟩ := SignerSet.installedYields done
    trivial

theorem Observing.passPaired {view : StakeView} {os : List Observation} (h : Holding s)
    (filled : Batching.Filled s) (reg : Registered (fun _ => True) s) (pass : Pass view block s os t) :
    ∀ o ∈ os, o.effect.WellPaired := by
  induction pass with
  | rest s => exact fun o found => nomatch found
  | @observe s u t nonce fingerprint a e later _ _ _ effect _ ih =>
    have marked : EscrowKept s (mark nonce fingerprint a s) := markEscrow
    have holding := (marked.exchanged h).holding
    have filledMarked := marked.fewer.filled filled
    have regMarked := marked.registered reg
    have effected := takeEffectEffected holding effect
    obtain ⟨left, fewer, _⟩ := effected.exchanged holding
    intro o found
    rcases List.mem_cons.1 found with rfl | rest
    · exact takeEffectPaired holding filledMarked regMarked effect
    · exact ih left.holding (fewer.filled filledMarked)
        (effected.registered regMarked fun _ _ => trivial) o rest

theorem Movement.wellPaired (h : Holding s) (filled : Batching.Filled s)
    (reg : Registered (fun _ => True) s) (moved : Movement block s order r t) :
    ∀ o ∈ r.observations, o.effect.WellPaired := by
  obtain ⟨u, w, voted, pass, _⟩ := moved.observes
  exact Observing.passPaired (voted.escrow.exchanged h).holding (voted.escrow.fewer.filled filled)
    (voted.escrow.registered reg) pass

namespace Journal

variable {j k : Journal}

theorem Follows.registering (h : Follows j k) (run : Run j) : Registering j.store k.store := by
  refine Follows.keeps h run .here ?_
  intro i block order r t past kept later yields
  exact kept.trans ((Chain.laterMovement later yields).registering past.accounted.holding)

theorem Run.bothWays (run : Run j) : Registry.BothWays j.store := by
  refine Run.keeps ?setUp ?deed run
  case setUp =>
    intro _ _ _ _ yields
    exact (Contract.setUpEscrow yields).1.registry.bothWays .empty
  case deed =>
    intro j block order r t past inv later yields
    exact ((Chain.laterMovement later yields).registering past.accounted.holding).bothWays inv

theorem Run.wellPaired (run : Run j) : ∀ o ∈ j.observations, o.effect.WellPaired := by
  refine Run.keeps ?setUp ?deed run
  case setUp =>
    intro _ _ _ _ yields o found
    simp [observations, (Contract.setUpEscrow yields).2.2] at found
  case deed =>
    intro j block order r t past inv later yields o found
    rw [observationsConcat] at found
    rcases List.mem_append.1 found with old | new
    · exact inv o old
    · exact (Chain.laterMovement later yields).wellPaired past.accounted.holding past.filled
        (past.registered fun _ _ => trivial) o new

/-- The registry lists tokens and assets one to one and tells native ones by their origin; no later point of the run
changes or drops what it lists; the token of every transfer held is listed; and no observed claim has failed over it. -/
theorem Run.pairedForGood (run : Run j) :
    (∀ token p, j.store.pairings.get? token = some p →
      p.token = token ∧ j.store.tokenOf.get? p.asset.key = some token ∧
      (p.ofThisChain = true ↔ p.asset.IsNative)) ∧
    (∀ name token, j.store.tokenOf.get? name = some token →
      ∃ p, j.store.pairings.get? token = some p ∧ p.asset.key = name) ∧
    (∀ k, Follows j k → PairingsKept j.store k.store ∧ TokensKept j.store k.store) ∧
    (∀ x ∈ j.store.held, ∃ p, j.store.pairings.get? x.token = some p) ∧
    ∀ o ∈ j.observations, (∀ token, o.effect ≠ .failed (.unpaired token)) ∧
      ∀ denom, o.effect ≠ .failed (.notMintable denom) := by
  have reg : Registered (fun _ => True) j.store := run.registered fun _ _ => trivial
  refine ⟨fun token p found => ?_, reg.ofAsset, fun k later => ?_, fun x held => ?_, fun o observed =>
    ⟨(run.wellPaired o observed).registered, (run.wellPaired o observed).mintable⟩⟩
  · obtain ⟨listed, named⟩ := run.bothWays token p found
    exact ⟨listed, named, reg.origin found⟩
  · have grown := later.registering run
    exact ⟨grown.pairings, grown.tokens⟩
  · obtain ⟨p, paired, _⟩ := run.accounted.holding.pairedByName reg held
    exact ⟨p, paired⟩

def twicePaired : Journal :=
  halfBatched.deliver ⟨111, 12⟩ (.execute ⟨⟨"admin"⟩, []⟩
    (.registerToken "0x0000000000000000000000000000000000000003" "contract"))

theorem twicePairedForGood :
    Run twicePaired ∧
    (∃ p, halfBatched.store.pairings.get? .zero = some p ∧ p.token = .zero ∧ p.asset.IsNative ∧
      p.ofThisChain = true ∧ twicePaired.store.pairings.get? .zero = some p) ∧
    (∃ k p, k ≠ .zero ∧ twicePaired.store.tokenOf.get? "contract" = some k ∧
      twicePaired.store.pairings.get? k = some p ∧ p.asset.key = "contract") ∧
    (∃ x ∈ twicePaired.store.held, ∃ p, twicePaired.store.pairings.get? x.token = some p) ∧
    ∃ o ∈ twicePaired.observations, o.claim.event = .batchExecuted 1 .zero ∧
      o.effect ≠ .failed (.unpaired .zero) := by
  have run : Run twicePaired := .order halfBatchedRun _ _ rfl
  have later : Follows halfBatched twicePaired := .later (.here _) _ _ rfl
  have stored : (∃ p ∈ halfBatched.store.pairings.get? .zero, p.ofThisChain = true) ∧
      (∃ k ∈ twicePaired.store.tokenOf.get? "contract", k ≠ .zero) ∧
      twicePaired.store.held ≠ [] ∧
      ∃ o ∈ twicePaired.observations, o.claim.event = .batchExecuted 1 .zero := by
    decide +kernel
  obtain ⟨⟨p, found, ours⟩, ⟨k, listed, other⟩, holds, o, observed, executed⟩ := stored
  obtain ⟨x, held⟩ := List.exists_mem_of_ne_nil _ holds
  obtain ⟨pairings, _, kept, _, _⟩ := Run.pairedForGood halfBatchedRun
  obtain ⟨_, names, _, tokens, effects⟩ := Run.pairedForGood run
  obtain ⟨same, _, native⟩ := pairings .zero p found
  obtain ⟨q, paired, named⟩ := names "contract" k listed
  exact ⟨run, ⟨p, found, same, native.1 ours, ours, (kept _ later).1 .zero p found⟩,
    ⟨k, q, other, listed, paired, named⟩, ⟨x, held, tokens x held⟩,
    o, observed, executed, (effects o observed).1 .zero⟩

end Journal

end TokenBridge
