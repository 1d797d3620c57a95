import TokenBridge.Proofs.Escrow.InTime
import TokenBridge.Proofs.Escrow.Shape
import TokenBridge.Proofs.Signing.Stored
import TokenBridge.Answers
/-!
Checkpoints last. What signers sign for a signer set or a batch is one hash, as long as the bridge answers for it: the
sets stay as they were stored, and batches are numbered on, so no other batch ever takes the place of one that is gone.
-/
namespace TokenBridge

open TokenBridge.Action

variable {s t u : Store} {block : Block} {r : Response} {order : Order} {token : Address} {nonce : UInt64}

structure BatchesAged (s t : Store) : Prop where
  reached : ∀ k, (s.lastBatch.getD k 0).toNat ≤ (t.lastBatch.getD k 0).toNat
  passed : ∀ k n b, n.toNat ≤ (s.lastBatch.getD k 0).toNat → t.batches.get? (k, n) = some b →
    s.batches.get? (k, n) = some b

theorem Batching.FewerBatches.aged (fewer : FewerBatches s t) (last : t.lastBatch = s.lastBatch) :
    BatchesAged s t where
  reached k := Nat.le_of_eq (by rw [last])
  passed k n b _ found := fewer (k, n) b found

theorem EscrowKept.aged (kept : EscrowKept s t) : BatchesAged s t :=
  Batching.FewerBatches.aged (fun _ _ found => kept.batches ▸ found) kept.lastBatch

theorem BatchesAged.trans (h : BatchesAged s t) (h' : BatchesAged t u) : BatchesAged s u where
  reached k := Nat.le_trans (h.reached k) (h'.reached k)
  passed k n b early found :=
    h.passed k n b early (h'.passed k n b (Nat.le_trans early (h.reached k)) found)

theorem BatchesAged.unmodified {key : Address × UInt64} {b c : Batch} (aged : BatchesAged s t)
    (filed : Batching.Filed s) (stored : s.batches.get? key = some b)
    (found : t.batches.get? key = some c) : c = b := by
  obtain ⟨token, n⟩ := key
  have early := aged.passed token n c (filed.numbered token n b stored) found
  rw [stored] at early
  exact (Option.some.inj early).symm

theorem BatchesAged.gone {key : Address × UInt64} {b : Batch} (aged : BatchesAged s t)
    (further : BatchesAged t u) (filed : Batching.Filed s) (stored : s.batches.get? key = some b)
    (gone : t.batches.get? key = none) : u.batches.get? key = none := by
  obtain ⟨token, n⟩ := key
  -- The number was given by then, so what is stored under it later was stored already.
  have given := Nat.le_trans (filed.numbered token n b stored) (aged.reached token)
  cases found : u.batches.get? (token, n) with
  | none => rfl
  | some c =>
    have early := further.passed token n c given found
    rw [gone] at early
    cases early

namespace Batching

theorem assembleAged {limit : Nat} {height timeout : UInt64} {b : Batch}
    (made : Yields (assemble token limit height timeout) s b t) : BatchesAged s t := by
  obtain ⟨_, _, _, _, _, next, rfl⟩ := assembleYields made
  obtain ⟨_, _, removed⟩ := Pool.removeAllKeeps b.transfers s
  rw [removed] at next ⊢
  have later := Counter.nextVal next
  dsimp only at later
  constructor
  · intro k
    simp only [SortedMap.getD, SortedMap.getInsert] at later ⊢
    split
    · rename_i same
      subst same
      rw [Option.getD_some]
      omega
    · exact Nat.le_refl _
  · intro k n c early found
    refine (SortedMap.getInsertOther _ _ ?_).symm.trans found
    rintro ⟨⟩
    omega

end Batching

theorem Movement.aged (holding : Holding s) (moved : Movement block s order r t) : BatchesAged s t := by
  rcases moved.batches holding with ⟨fewer, last⟩ | ⟨_, _, _, _, _, made⟩
  · exact fewer.aged last
  · exact Batching.assembleAged made

namespace Answers

theorem answered {α : Type} {answer : Answer α} (ok : answer.isOk = true) :
    ∃ a, answer = .ok a := by
  cases answer with
  | ok a => exact ⟨a, rfl⟩
  | error => cases ok

theorem bridgeWordOk {w : Word} : bridgeWord s = .ok w ↔
    ∃ c, s.config = some c ∧ Checkpoint.bridgeWord c.bridgeId = .ok w := by
  unfold bridgeWord someOr
  cases s.config with
  | none => simp [refuse, bind, Except.bind]
  | some c =>
    cases word : Checkpoint.bridgeWord c.bridgeId <;>
      simp [word, bind, Except.bind, Except.mapError]

theorem setCheckpointOk {h : Word} : setCheckpoint s nonce = .ok h ↔
    ∃ w set, bridgeWord s = .ok w ∧ s.signerSets.get? nonce = some set ∧
      h = Checkpoint.ofSignerSet w set := by
  unfold setCheckpoint
  cases bridgeWord s with
  | error => simp [bind, Except.bind]
  | ok w =>
    cases s.signerSets.get? nonce <;>
      simp [someOr, refuse, bind, Except.bind, pure, Except.pure, eq_comm]

theorem batchCheckpointOk {written : String} {h : Word} : batchCheckpoint s written nonce = .ok h ↔
    ∃ w k b, bridgeWord s = .ok w ∧ Address.parse written = .ok k ∧
      s.batches.get? (k, nonce) = some b ∧ h = Checkpoint.ofBatch w b := by
  unfold batchCheckpoint address
  cases bridgeWord s with
  | error => simp [bind, Except.bind]
  | ok w =>
    cases Address.parse written with
    | error => simp [bind, Except.bind, Except.mapError]
    | ok k =>
      cases stored : s.batches.get? (k, nonce) <;>
        simp [stored, someOr, refuse, bind, Except.bind, pure, Except.pure, Except.mapError, eq_comm]

theorem bridgeWordLasts {w : Word} (last : SetsLast s t) (found : bridgeWord s = .ok w) :
    bridgeWord t = .ok w := by
  obtain ⟨c, configured, word⟩ := bridgeWordOk.1 found
  obtain ⟨d, configured', same⟩ := last.bridge c configured
  exact bridgeWordOk.2 ⟨d, configured', same ▸ word⟩

end Answers

namespace Journal

variable {i j k : Journal}

theorem Follows.aged (h : Follows i j) (run : Run i) : BatchesAged i.store j.store := by
  refine Follows.keeps h run EscrowKept.here.aged ?_
  intro j block order r t run aged later yields
  exact aged.trans ((Chain.laterMovement later yields).aged run.accounted.holding)

theorem Run.checkpointsLast (run : Run i) (first : Follows i j) (second : Follows j k) :
    (∀ n h, Answers.setCheckpoint i.store n = .ok h → Answers.setCheckpoint j.store n = .ok h) ∧
    (∀ token token' n h h', Address.parse token = Address.parse token' →
      Answers.batchCheckpoint i.store token n = .ok h →
      Answers.batchCheckpoint j.store token' n = .ok h' → h = h') ∧
    (∃ c d, i.store.config = some c ∧ j.store.config = some d ∧ d.bridgeId = c.bridgeId) ∧
    (∀ n set, i.store.signerSets.get? n = some set → j.store.signerSets.get? n = some set) ∧
    (∀ key b c, i.store.batches.get? key = some b → j.store.batches.get? key = some c → c = b) ∧
    ∀ key b, i.store.batches.get? key = some b → j.store.batches.get? key = none →
      k.store.batches.get? key = none := by
  have last := first.setsLast run
  have aged := first.aged run
  have further := second.aged (first.run run)
  have filed := run.accounted.holding.filed
  refine ⟨?sets, ?batches, ?bridge, last.sets, fun _ _ _ stored found => aged.unmodified filed stored found,
    fun _ _ stored gone => aged.gone further filed stored gone⟩
  case sets =>
    intro n h answered
    obtain ⟨w, set, bridge, stored, rfl⟩ := Answers.setCheckpointOk.1 answered
    exact Answers.setCheckpointOk.2
      ⟨w, set, Answers.bridgeWordLasts last bridge, last.sets n set stored, rfl⟩
  case batches =>
    intro token token' n h h' written answered answered'
    obtain ⟨w, key, b, bridge, parsed, stored, rfl⟩ := Answers.batchCheckpointOk.1 answered
    obtain ⟨w', key', c, bridge', parsed', stored', rfl⟩ := Answers.batchCheckpointOk.1 answered'
    rw [Answers.bridgeWordLasts last bridge] at bridge'
    rw [written, parsed'] at parsed
    cases bridge'
    cases parsed
    rw [aged.unmodified filed stored stored']
  case bridge =>
    obtain ⟨c, configured, _⟩ := run.signable.configured
    obtain ⟨d, configured', same⟩ := last.bridge c configured
    exact ⟨c, d, configured, configured', same⟩

def signing : Journal := twoBatches.deliver ⟨107, 8⟩ (.execute ⟨⟨"carol"⟩, []⟩ .endBlock)

def zeroWritten : String := "0x0000000000000000000000000000000000000000"

theorem signingLasts :
    (∃ h, Answers.setCheckpoint signing.store 1 = .ok h ∧
      Answers.setCheckpoint halfExecuted.store 1 = .ok h) ∧
    (∃ h, Answers.batchCheckpoint signing.store zeroWritten 2 = .ok h ∧
      Answers.batchCheckpoint halfExecuted.store zeroWritten 2 = .ok h) ∧
    (∃ b, signing.store.batches.get? (.zero, 1) = some b) ∧
    fullyExecuted.store.batches.get? (.zero, 1) = none := by
  have run : Run signing := .order twoBatchesRun _ _ rfl
  have first : Follows signing halfExecuted := .later (.later (.here _) _ _ rfl) _ _ rfl
  have second : Follows halfExecuted fullyExecuted := .later (.here _) _ _ rfl
  obtain ⟨sets, batches, _, _, _, gone⟩ := Run.checkpointsLast run first second
  have answers : (Answers.setCheckpoint signing.store 1).isOk = true ∧
      (Answers.batchCheckpoint signing.store zeroWritten 2).isOk = true ∧
      (Answers.batchCheckpoint halfExecuted.store zeroWritten 2).isOk = true ∧
      (signing.store.batches.get? (.zero, 1)).isSome = true ∧
      halfExecuted.store.batches.get? (.zero, 1) = none := by
    decide +kernel
  obtain ⟨h, answered⟩ := Answers.answered answers.1
  obtain ⟨before, answeredBefore⟩ := Answers.answered answers.2.1
  obtain ⟨after, answeredAfter⟩ := Answers.answered answers.2.2.1
  obtain ⟨b, stored⟩ := Option.isSome_iff_exists.1 answers.2.2.2.1
  refine ⟨⟨h, answered, sets 1 h answered⟩, ⟨before, answeredBefore, ?_⟩, ⟨b, stored⟩,
    gone _ b stored answers.2.2.2.2⟩
  rw [batches _ _ 2 before after rfl answeredBefore answeredAfter]
  exact answeredAfter

end Journal

end TokenBridge
