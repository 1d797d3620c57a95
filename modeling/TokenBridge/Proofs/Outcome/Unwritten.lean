import TokenBridge.Proofs.Observation.Completion
import TokenBridge.Proofs.Outcome.Refused
import TokenBridge.Proofs.Signing.Stored
/-!
Refusals along a run. Observation never refuses, and at the end of a block nothing is missing, so all messages but
one refuse before they write. The reports of stakes are the one: each is taken in before the next is looked at, and
those in front of a bad name stay.
-/
namespace TokenBridge

open TokenBridge.Action

variable {s t : Store} {block : Block} {caller : Caller} {m : Message} {why : Refusal}

namespace Observing

theorem observeUnrefusing {view : StakeView} : Unrefusing (observe view block) where
  never h := by
    obtain ⟨_, _, _, stopped⟩ := observeHalts.1 h
    rcases observeNextHalts.1 stopped with ⟨_, _, overflow, _⟩ | ⟨_, _, _, _, effect⟩
    · cases overflow
    · cases (takeEffectHalts effect).1

theorem submitChecksFirst {claim : Claim} : ChecksFirst (submit block caller claim) :=
  .after .refuseIf fun _ => .after Directory.validatorOfReads fun _ => .after .config fun _ =>
    .before Voting.castChecksFirst fun _ => .bind observeUnrefusing fun _ => .pure

theorem processUnrefusing : Unrefusing (process block) := .bind observeUnrefusing fun _ => .pure

end Observing

theorem Batching.dissolveExpiredUnhalted (filed : Filed s) {halt : Halt} : ¬ Halts dissolveExpired s halt t := by
  intro h
  simp only [dissolveExpired, haltsBind, haltsGet, haltsPure, yieldsGet, List.forM_eq_forM, false_or, and_false,
    exists_false, or_false] at h
  obtain ⟨_, _, ⟨rfl, rfl⟩, stopped⟩ := h
  refine dissolvesComplete (filed.keysDistinct.sublist (List.filter_sublist.map _)) (fun b late => ?_) stopped
  obtain ⟨⟨token, nonce⟩, stored⟩ := SortedMap.memValues.1 (List.mem_filter.1 late).1
  obtain ⟨rfl, rfl⟩ := filed.keyed token nonce b stored
  exact ⟨b, stored⟩

namespace SignerSet

variable {view : StakeView} {height : UInt64}

theorem currentUnrefused (configured : ∃ c, s.config = some c) : current view height s ≠ .error (.refused why) := by
  obtain ⟨c, configured⟩ := configured
  unfold current
  rw [configured]
  dsimp only
  split <;> simp

theorem storeDriftedUnrefused (configured : ∃ c, s.config = some c) :
    ¬ Halts (storeDrifted view height) s (.refused why) t := by
  intro h
  simp only [storeDrifted, Action.config, haltsBind, yieldsBind, haltsGet, yieldsGet, haltsSomeOr, yieldsSomeOr,
    haltsOfExcept, false_or] at h
  obtain ⟨_, _, ⟨rfl, rfl⟩, absent, _⟩ | ⟨c, _, ⟨_, _, ⟨rfl, rfl⟩, _, rfl⟩, _, _, ⟨rfl, rfl⟩, h⟩ := h
  · obtain ⟨c, configured⟩ := configured
    rw [configured] at absent
    cases absent
  · rcases h with ⟨refused, _⟩ | ⟨now, _, _, h⟩
    · exact currentUnrefused configured refused
    · split at h
      · exact haltsPure h
      · rcases haltsBind.1 h with stopped | ⟨needed, _, _, h⟩
        · exact Unrefusing.inRange.never stopped
        · split at h
          · simp at h
          · exact haltsPure h

end SignerSet

theorem Housekeeping.endBlockUnrefused (configured : ∃ c, s.config = some c) (holding : Holding s) :
    ¬ Halts (endBlock block) s (.refused why) t := by
  intro h
  rcases haltsBind.1 h with stopped | ⟨os, u, observed, h⟩
  · exact Observing.observeUnrefusing.never stopped
  · have pass := Observing.observePass observed
    rcases haltsBind.1 h with stopped | ⟨batches, v, dissolved, h⟩
    · exact Batching.dissolveExpiredUnhalted (Observing.passHolding holding pass).filed stopped
    · obtain ⟨_, returned⟩ := Batching.dissolveExpiredYields dissolved
      -- What was observed and what has timed out leave the configuration alone.
      have kept := (Observing.passMoves pass).signing.trans (Batching.dissolvesMove returned).signing
      rcases haltsBind.1 h with stopped | ⟨_, _, _, h⟩
      · exact SignerSet.storeDriftedUnrefused (kept.config ▸ configured) stopped
      · exact haltsPure h

theorem Contract.executeUnwritten (configured : ∃ c, s.config = some c) (holding : Holding s)
    (unreported : ∀ reports, m ≠ .updatePowers reports)
    (refused : Halts (Contract.execute block caller m) s (.refused why) t) : t = s := by
  cases m with
  | setOrchestrator => exact Directory.setOrchestratorChecksFirst.kept refused
  | addStaticValidator => exact Directory.addStaticValidatorChecksFirst.kept refused
  | updatePowers reports => exact absurd rfl (unreported reports)
  | submitClaim => exact Observing.submitChecksFirst.kept refused
  | processAttestations => exact absurd refused Observing.processUnrefusing.never
  | requestSet => exact SignerSet.requestChecksFirst.kept refused
  | confirmSet => exact SignerSet.confirmChecksFirst.kept refused
  | endBlock => exact absurd refused (Housekeeping.endBlockUnrefused configured holding)
  | sendToEth => exact Pool.sendToEthChecksFirst.kept refused
  | receive => exact Pool.receiveChecksFirst.kept refused
  | cancelTransfer => exact Pool.cancelChecksFirst.kept refused
  | requestBatch => exact Batching.requestChecksFirst.kept refused
  | confirmBatch => exact Batching.confirmChecksFirst.kept refused
  | registerToken => exact Registry.registerTokenChecksFirst.kept refused
  | updateConfig => exact Admin.updateConfigChecksFirst.kept refused
  | setMinimumFee => exact Admin.setMinimumFeeChecksFirst.kept refused
  | pause => exact Admin.pauseChecksFirst.kept refused
  | unpause => exact Admin.unpauseChecksFirst.kept refused
  | proposeAdmin => exact Admin.proposeChecksFirst.kept refused
  | acceptAdmin => exact Admin.acceptChecksFirst.kept refused
  | cancelProposal => exact Admin.cancelProposalChecksFirst.kept refused

namespace Directory

variable {reports : List StakeReport} {halt : Halt}

def takeIn (reports : List StakeReport) (s : Store) : Store :=
  reports.foldl (fun s report => s.setPower ⟨report.validator⟩ report.power) s

inductive CutShort (reports : List StakeReport) (s : Store) : Refusal → Store → Prop where
  | badName (taken : List StakeReport) {report : StakeReport} {later : List StakeReport} {fault : AccountFault}
      (split : reports = taken ++ report :: later)
      (good : ∀ r ∈ taken, Account.validate r.validator = .ok ⟨r.validator⟩)
      (bad : Account.validate report.validator = .error fault) :
      CutShort reports s (.badAccount fault) (takeIn taken s)

theorem reportHalts (h : Halts (Directory.report reports) s halt t) :
    ∃ why, halt = .refused why ∧ CutShort reports s why t := by
  simp only [Directory.report, List.forM_eq_forM] at h
  -- Each good name moves the store on, so what is refused later is refused in another store.
  induction reports generalizing s with
  | nil => exact absurd h haltsPure
  | cons r rest ih =>
    rw [haltsForMCons] at h
    simp only [haltsBind, yieldsBind, haltsAccount, yieldsAccount, haltsModify, yieldsModify, and_false, exists_false,
      or_false] at h
    rcases h with ⟨fault, bad, rfl, rfl⟩ | ⟨_, ⟨v, _, ⟨good, rfl⟩, rfl⟩, h⟩
    · exact ⟨_, rfl, .badName [] rfl (by simp) bad⟩
    · obtain rfl := Account.validateName good
      obtain ⟨why, rfl, cut⟩ := ih h
      cases cut with
      | badName taken split others bad =>
        refine ⟨_, rfl, .badName (r :: taken) (congrArg (r :: ·) split) ?_ bad⟩
        exact List.forall_mem_cons.2 ⟨good, others⟩

theorem reportCutShort (cut : CutShort reports s why t) : Halts (Directory.report reports) s (.refused why) t := by
  obtain ⟨taken, rfl, good, bad⟩ := cut
  simp only [Directory.report, List.forM_eq_forM]
  induction taken generalizing s with
  | nil =>
    rw [List.nil_append, haltsForMCons]
    exact .inl (haltsBind.2 (.inl (haltsAccount.2 ⟨_, bad, rfl, rfl⟩)))
  | cons first rest ih =>
    obtain ⟨valid, others⟩ := List.forall_mem_cons.1 good
    rw [List.cons_append, haltsForMCons]
    refine .inr ⟨_, yieldsBind.2 ⟨_, s, yieldsAccount.2 ⟨valid, rfl⟩, yieldsModify.2 rfl⟩, ih others⟩

theorem updatePowersRefuses : Halts (updatePowers caller reports) s (.refused why) t ↔
    Halts (configFor caller) s (.refused why) t ∨
    ∃ c, s.config = some c ∧ caller.sender = c.admin ∧ CutShort reports s why t := by
  simp only [updatePowers, haltsBind, yieldsConfigFor, haltsGet, haltsPure, and_false, exists_false, or_false]
  refine or_congr_right ⟨?_, ?_⟩
  · rintro ⟨c, _, ⟨found, admin, rfl⟩, stopped⟩
    obtain ⟨_, same, cut⟩ := reportHalts stopped
    cases same
    exact ⟨c, found, admin, cut⟩
  · rintro ⟨c, found, admin, cut⟩
    exact ⟨c, s, ⟨found, admin, rfl⟩, reportCutShort cut⟩

end Directory

namespace Journal

variable {j : Journal}

/-- What is refused leaves the store as it was at the moment of the refusal, except for reports of the admin that a
bad name cuts short: those in front of the name are in the store already. -/
theorem Run.refusedUnwritten (run : Run j) (block : Block) (caller : Caller) (why : Refusal) (t : Store) :
    (∀ m, Halts (Contract.execute block caller m) j.store (.refused why) t →
      t = j.store ∨ ∃ c reports, j.store.config = some c ∧ caller.sender = c.admin ∧ m = .updatePowers reports ∧
        Directory.CutShort reports j.store why t) ∧
    ∀ c reports, j.store.config = some c → caller.sender = c.admin → Directory.CutShort reports j.store why t →
      Halts (Contract.execute block caller (.updatePowers reports)) j.store (.refused why) t := by
  refine ⟨fun m refused => ?_, fun c reports found admin cut =>
    Directory.updatePowersRefuses.2 (.inr ⟨c, found, admin, cut⟩)⟩
  obtain ⟨c, configured, _⟩ := run.signable.configured
  by_cases unreported : ∀ reports, m ≠ .updatePowers reports
  · exact .inl (Contract.executeUnwritten ⟨c, configured⟩ run.accounted.holding unreported refused)
  · obtain ⟨reports, reported⟩ := not_forall_not.1 unreported
    subst reported
    rcases Directory.updatePowersRefuses.1 refused with stopped | ⟨c, found, admin, cut⟩
    · exact .inl (Reads.configFor.halts stopped)
    · exact .inr ⟨c, reports, found, admin, rfl, cut⟩

def badlyNamed : List StakeReport := [⟨"other", 7⟩, ⟨"x", 1⟩]

theorem openedAdmin : opened.store.config.map Config.admin = some ⟨"admin"⟩ ∧
    opened.store.powers.get? ⟨"other"⟩ = none := by
  decide +kernel

theorem badlyNamedCut : Directory.CutShort badlyNamed opened.store (.badAccount .tooShort)
    (Directory.takeIn [⟨"other", 7⟩] opened.store) :=
  .badName [⟨"other", 7⟩] rfl (by decide) rfl

theorem badlyNamedRefused : Run opened ∧
    Halts (Contract.execute ⟨102, 3⟩ ⟨⟨"admin"⟩, []⟩ (.updatePowers badlyNamed)) opened.store
      (.refused (.badAccount .tooShort)) (Directory.takeIn [⟨"other", 7⟩] opened.store) := by
  obtain ⟨c, found, admin⟩ := Option.map_eq_some_iff.1 openedAdmin.1
  refine ⟨openedRun, ?_⟩
  exact (Run.refusedUnwritten openedRun ⟨102, 3⟩ ⟨⟨"admin"⟩, []⟩ _ _).2 c badlyNamed found admin.symm badlyNamedCut

theorem badlyNamedWritten : Run opened ∧ ∃ t,
    Halts (Contract.execute ⟨102, 3⟩ ⟨⟨"admin"⟩, []⟩ (.updatePowers badlyNamed)) opened.store
      (.refused (.badAccount .tooShort)) t ∧ t ≠ opened.store := by
  obtain ⟨c, found, admin⟩ := Option.map_eq_some_iff.1 openedAdmin.1
  refine ⟨openedRun, _, Directory.updatePowersRefuses.2 (.inr ⟨c, found, admin.symm, badlyNamedCut⟩), fun same => ?_⟩
  have there : (Directory.takeIn [⟨"other", 7⟩] opened.store).powers.get? ⟨"other"⟩ = some 7 :=
    SortedMap.getInsertSelf ..
  rw [same, openedAdmin.2] at there
  cases there

end Journal

end TokenBridge
