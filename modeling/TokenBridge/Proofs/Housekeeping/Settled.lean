import TokenBridge.Proofs.Escrow.InTime
import TokenBridge.Proofs.Observation.Loop
import TokenBridge.Proofs.Signing.Ranked
/-!
What the end of a block leaves to be done: nothing. None of its three passes makes work for an earlier one, and a
signer set that was just stored has not drifted from the signers of now, so the end of the next block changes
nothing until something else does.
-/
namespace TokenBridge

open TokenBridge.Action

variable {s t u : Store} {block : Block} {caller : Caller} {r : Response} {height : UInt64}

namespace Batching

theorem dissolvesFewer {batches : List Batch} {v : PUnit}
    (done : Yields (forM batches fun b => dissolve b.token b.nonce) s v t) : FewerBatches s t := by
  refine forMKeeps (P := FewerBatches s) done (fun _ _ found => found) ?_
  intro b _ u w fewer round k c found
  exact fewer k c (dissolveFewer round k c found)

theorem dissolvesGone {batches : List Batch} {v : PUnit}
    (done : Yields (forM batches fun b => dissolve b.token b.nonce) s v t) :
    ∀ b ∈ batches, t.batches.get? (b.token, b.nonce) = none := by
  induction batches generalizing s with
  | nil => exact fun _ inside => nomatch inside
  | cons b rest ih =>
    obtain ⟨w, first, later⟩ := yieldsForMCons.1 done
    intro c inside
    rcases List.mem_cons.1 inside with rfl | inside
    · obtain ⟨_, _, rfl⟩ := dissolveYields first
      cases found : t.batches.get? (c.token, c.nonce) with
      | none => rfl
      | some d =>
        have left := dissolvesFewer later _ d found
        rw [discard, SortedMap.getEraseSelf] at left
        cases left
    · exact ih later c inside

theorem memExpired {b : Batch} : b ∈ expired s ↔
    (∃ k, s.batches.get? k = some b) ∧ b.timeout.toNat < s.ethHeight.toNat := by
  rw [expired, List.mem_filter, SortedMap.memValues, Counter.below, Nat.blt_eq]

theorem expiredGone (filed : Filed s) {v : PUnit}
    (done : Yields (forM (expired s) fun b => dissolve b.token b.nonce) s v t) {k : Address × UInt64}
    {b : Batch} (found : t.batches.get? k = some b) : s.ethHeight.toNat ≤ b.timeout.toNat := by
  by_contra late
  have stored := dissolvesFewer done k b found
  obtain ⟨token, nonce⟩ := k
  obtain ⟨rfl, rfl⟩ := filed.keyed token nonce b stored
  have gone := dissolvesGone done b (memExpired.2 ⟨⟨_, stored⟩, by omega⟩)
  rw [gone] at found
  cases found

end Batching

namespace SignerSet

variable {view : StakeView} {last now : SignerSet} {c : Config}

theorem currentRoom (configured : s.config = some c) (room : s.latestSet.toNat < UInt64.size - 1)
    (height : UInt64) : ∃ now, current view height s = .ok now := by
  obtain ⟨nonce, next⟩ := Counter.nextRoom room
  unfold current
  rw [configured, next]
  exact ⟨_, rfl⟩

theorem driftOfMembers {set : SignerSet} (same : set.members = now.members) :
    last.drift? set = last.drift? now := by
  rw [drift?, drift?, same]

theorem driftedNot : drifted c (some last) now = some false ↔
    ∃ d, last.drift? now = some d ∧ d.atomics < c.driftThreshold.atomics := by
  simp [drifted, Option.bind_eq_some_iff, Decimal.below]

def Undrifted (s : Store) : Prop :=
  (∀ v a, s.signerOf.get? v = some a → s.powers.getD v 0 = 0) ∨
  ∃ c last, s.config = some c ∧ latest s = some last ∧
    ∀ height, ∃ now drift, current .stored height s = .ok now ∧ last.drift? now = some drift ∧
      drift.atomics < c.driftThreshold.atomics

theorem latestKept (made : current view height s = .ok now) : latest (keep now s) = some now := by
  obtain ⟨_, nonce, _, next, rfl⟩ := currentOk made
  have later := Counter.nextVal next
  have positive : nonce ≠ 0 := by
    rintro rfl
    exact absurd later (by simp)
  simp [latest, keep, canonical, positive]

theorem storeDriftedSettles {stored : Option SignerSet} (signable : Signable s) (apart : s.SignersApart)
    (room : t.latestSet.toNat < UInt64.size - 1) (h : Yields (storeDrifted .stored height) s stored t) :
    Undrifted t := by
  obtain ⟨c, now, configured, made, cases⟩ := storeDriftedYields h
  have members := currentMembers made
  -- No signers, power still within the threshold, or the set of now just stored.
  rcases cases with ⟨empty, _, rfl⟩ | ⟨_, small, _, rfl⟩ | ⟨_, _, _, rfl⟩
  · rw [empty, eq_comm, Signer.ranked, Sorting.sortNil] at members
    exact .inl (StakeView.signersNone.1 members)
  · cases found : latest t with
    | none =>
      rw [found] at small
      cases small
    | some last =>
      rw [found] at small
      obtain ⟨d, drift, within⟩ := driftedNot.1 small
      refine .inr ⟨c, last, configured, found, fun height => ?_⟩
      obtain ⟨later, made'⟩ := currentRoom configured room height
      have same : later.members = now.members := (currentMembers made').trans members.symm
      exact ⟨later, d, made', (driftOfMembers same).trans drift, within⟩
  · refine .inr ⟨c, now, configured, latestKept made, fun height => ?_⟩
    have kept : (keep now s).config = some c := configured
    obtain ⟨later, made'⟩ := currentRoom kept room height
    have signers : StakeView.stored.signers (keep now s) = StakeView.stored.signers s := rfl
    have same : later.members = now.members := by
      rw [currentMembers made', signers, members]
    have distinct := currentDistinct apart made
    obtain ⟨c', configured', positive⟩ := signable.configured
    rw [configured] at configured'
    cases configured'
    exact ⟨later, _, made', driftNone distinct same, Nat.pos_of_ne_zero positive⟩

theorem storeDriftedQuiet (undrifted : Undrifted s) (signable : Signable s)
    (room : s.latestSet.toNat < UInt64.size - 1) : Yields (storeDrifted .stored height) s none s := by
  obtain ⟨c, configured, _⟩ := signable.configured
  obtain ⟨now, made⟩ := currentRoom configured room height
  simp only [storeDrifted, yieldsBind, yieldsConfig, yieldsGet, yieldsOfExcept]
  refine ⟨c, s, ⟨configured, rfl⟩, s, s, ⟨rfl, rfl⟩, now, s, ⟨made, rfl⟩, ?_⟩
  split
  · exact yieldsPure.2 ⟨rfl, rfl⟩
  · rename_i filled
    rcases undrifted with powerless | ⟨c', last, configured', found, steady⟩
    · have none := currentMembers made
      rw [StakeView.signersNone.2 powerless] at none
      simp [none, Signer.ranked, Sorting.sort] at filled
    · rw [configured] at configured'
      cases configured'
      obtain ⟨now', d, made', drift, within⟩ := steady height
      rw [made] at made'
      cases made'
      rw [found, driftedNot.2 ⟨d, drift, within⟩]
      simp

end SignerSet

structure Store.Settled (s : Store) : Prop where
  decided : s.totalPower = 0 ∨
    ∀ n p a, n.toNat = s.observedNonce.toNat + 1 → s.attestations.get? (n, p) = some a →
      a.observed = false → (StakeView.stored.share s a.votes s.totalPower).toNat < Power.threshold
  unexpired : ∀ k b, s.batches.get? k = some b → s.ethHeight.toNat ≤ b.timeout.toNat
  undrifted : SignerSet.Undrifted s

namespace Housekeeping

theorem endBlockSettled (holding : Holding s) (signable : Signable s) (apart : s.SignersApart)
    (room : t.latestSet.toNat < UInt64.size - 1) (h : Yields (endBlock block) s r t) : t.Settled := by
  obtain ⟨os, u, v, stored, observed, returned, kept, _⟩ := endBlockObserves h
  obtain ⟨pass, quiet⟩ := Observing.observeEnds observed
  have filed := (Observing.passHolding holding pass).filed
  have signing := (Observing.passMoves pass).signing.trans (Batching.dissolvesMove returned).signing
  have poll := (Observing.passPoll pass).trans (Batching.dissolvesMove returned).poll
  refine ⟨?decided, ?unexpired, ?undrifted⟩
  case decided =>
    obtain ⟨_, _, _, _, rfl⟩ := Batching.dissolvesMove returned
    obtain ⟨_, _, _, _, _, _, _, rfl⟩ := SignerSet.storeDriftedMoves kept
    exact Observing.dueNone.1 quiet
  case unexpired =>
    intro k b found
    have left : v.batches.get? k = some b := by
      obtain ⟨_, _, _, _, _, _, _, rfl⟩ := SignerSet.storeDriftedMoves kept
      exact found
    have height : t.ethHeight = u.ethHeight := by
      obtain ⟨_, _, _, _, rfl⟩ := Batching.dissolvesMove returned
      obtain ⟨_, _, _, _, _, _, _, rfl⟩ := SignerSet.storeDriftedMoves kept
      rfl
    rw [height]
    exact Batching.expiredGone filed returned left
  case undrifted =>
    exact SignerSet.storeDriftedSettles (signing.signable signable) (poll.signersApart apart) room kept

theorem endBlockQuiet (settled : s.Settled) (signable : Signable s)
    (setRoom : s.latestSet.toNat < UInt64.size - 1) (room : s.observedNonce.toNat < UInt64.size - 1) :
    ∃ r, Yields (endBlock block) s r s ∧ r.messages = [] ∧ r.observations = [] := by
  have observed : Yields (Observing.observe .stored block) s [] s :=
    Observing.observePasses (.rest s) (Observing.dueNone.2 settled.decided) (.inr (Counter.nextRoom room))
  have stored : Yields (SignerSet.storeDrifted .stored block.height) s none s :=
    SignerSet.storeDriftedQuiet settled.undrifted signable setRoom
  have unexpired : Batching.expired s = [] := by
    refine List.eq_nil_iff_forall_not_mem.2 fun b late => ?_
    obtain ⟨⟨k, found⟩, late⟩ := Batching.memExpired.1 late
    exact absurd (settled.unexpired k b found) (by omega)
  have dissolved : Yields Batching.dissolveExpired s [] s := by
    simp [Batching.dissolveExpired, unexpired]
  refine ⟨.of "end_block" [("observed_count", "0"), ("timed_out_batches", "0")], ?_, rfl, rfl⟩
  simp only [endBlock, yieldsBind, yieldsPure]
  exact ⟨[], s, observed, [], s, dissolved, none, s, stored, rfl, rfl⟩

end Housekeeping

namespace Journal

variable {j : Journal} {d : Deed}

theorem Run.endBlockSettles (run : Run j)
    (delivered : (j.deliver block (.execute caller .endBlock)).deeds = j.deeds ++ [d])
    (setRoom : d.after.latestSet.toNat < UInt64.size - 1)
    (room : d.after.observedNonce.toNat < UInt64.size - 1) :
    d.after.Settled ∧ ∀ block' caller', ∃ r,
      (j.deliver block (.execute caller .endBlock)).deliver block' (.execute caller' .endBlock) =
        ⟨j.deeds ++ [d, ⟨d.after, block', .execute caller' .endBlock, r, d.after⟩], d.after⟩ ∧
      r.messages = [] ∧ r.observations = [] := by
  obtain ⟨_, _, _, yields⟩ := deliverDeed delivered
  have ended : Yields (Housekeeping.endBlock block) j.store d.response d.after := yields
  have settled :=
    Housekeeping.endBlockSettled run.accounted.holding run.signable run.signersApart setRoom ended
  refine ⟨settled, fun block' caller' => ?_⟩
  have signable := (Housekeeping.endBlockSigning ended).signable run.signable
  obtain ⟨r, again, silent, unobserving⟩ := Housekeeping.endBlockQuiet settled signable setRoom room
  have again : Yields (Chain.action block' (.execute caller' .endBlock)) d.after r d.after := again
  refine ⟨r, ?_, silent, unobserving⟩
  have first : j.deliver block (.execute caller .endBlock) = ⟨j.deeds ++ [d], d.after⟩ := by
    rw [← delivered, deliverYields yields]
  rw [first, deliverYields again, List.append_assoc]
  rfl

/-- Two batches, and a vote at a height past their timeouts that decides only once the power of the other validator is
gone. -/
def overdue : Journal :=
  twoBatches.deliverAll
    [(⟨107, 8⟩, .execute ⟨⟨"admin"⟩, []⟩ (.updatePowers [⟨"other", 90⟩])),
      (⟨108, 9⟩, reporting ⟨2, 4000, .callExecuted ⟨[]⟩ 7⟩),
      (⟨109, 10⟩, .execute ⟨⟨"admin"⟩, []⟩ (.updatePowers [⟨"other", 0⟩]))]

theorem overdueRun : Run overdue := twoBatchesRun.deliverAll (by decide)

def anEnd : Order := .execute ⟨⟨"carol"⟩, []⟩ .endBlock

theorem overdueSettles : ∃ d, (overdue.deliver ⟨110, 11⟩ anEnd).deeds = overdue.deeds ++ [d] ∧
    d.response.observations.length = 1 ∧ d.before.batches.values.length = 2 ∧ d.after.batches = ∅ ∧
    d.before.latestSet = 0 ∧ d.after.latestSet = 1 ∧ d.after.Settled ∧
    ∃ r, (overdue.deliver ⟨110, 11⟩ anEnd).deliver ⟨111, 12⟩ anEnd =
      ⟨overdue.deeds ++ [d, ⟨d.after, ⟨111, 12⟩, anEnd, r, d.after⟩], d.after⟩ := by
  obtain ⟨d, _, delivered, setRoom, room, facts⟩ : ∃ d ∈ (overdue.deliver ⟨110, 11⟩ anEnd).deeds.getLast?,
      (overdue.deliver ⟨110, 11⟩ anEnd).deeds = overdue.deeds ++ [d] ∧
      d.after.latestSet.toNat < UInt64.size - 1 ∧ d.after.observedNonce.toNat < UInt64.size - 1 ∧
      d.response.observations.length = 1 ∧ d.before.batches.values.length = 2 ∧
      d.after.batches = ∅ ∧ d.before.latestSet = 0 ∧ d.after.latestSet = 1 := by
    decide +kernel
  obtain ⟨settled, again⟩ := Run.endBlockSettles overdueRun delivered setRoom room
  obtain ⟨r, same, _, _⟩ := again ⟨111, 12⟩ ⟨⟨"carol"⟩, []⟩
  obtain ⟨observed, stored, dissolved, none, one⟩ := facts
  exact ⟨d, delivered, observed, stored, dissolved, none, one, settled, r, same⟩

end Journal

end TokenBridge
