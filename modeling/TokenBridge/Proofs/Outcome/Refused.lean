import TokenBridge.Proofs.Outcome.Halting
/-!
What a refusal leaves behind, whoever carries the action out and whether or not they drop it. An action that goes
through its checks before it writes leaves the store as it was, and so does every message but one.
-/
namespace TokenBridge

namespace Action

variable {α β : Type} {x : Action α} {f : α → Action β}

structure Reads (x : Action α) : Prop where
  yields : ∀ {s a t}, Yields x s a t → t = s
  halts : ∀ {s halt t}, Halts x s halt t → t = s

structure Unrefusing (x : Action α) : Prop where
  never : ∀ {s why t}, ¬ Halts x s (.refused why) t

structure ChecksFirst (x : Action α) : Prop where
  kept : ∀ {s why t}, Halts x s (.refused why) t → t = s

namespace Reads

theorem pure {a : α} : Reads (pure a) where
  yields h := (yieldsPure.1 h).2
  halts h := absurd h haltsPure

theorem get : Reads get where
  yields h := (yieldsGet.1 h).2
  halts h := absurd h haltsGet

theorem throw {halt : Halt} : Reads (throw halt : Action α) where
  yields h := absurd h yieldsThrow
  halts h := (haltsThrow.1 h).2

theorem bind (first : Reads x) (rest : ∀ a, Reads (f a)) : Reads (x >>= f) where
  yields h := by
    obtain ⟨a, u, before, after⟩ := yieldsBind.1 h
    rw [(rest a).yields after, first.yields before]
  halts h := by
    rcases haltsBind.1 h with before | ⟨a, u, before, after⟩
    · exact first.halts before
    · rw [(rest a).halts after, first.yields before]

theorem require {condition : Bool} {why : Refusal} : Reads (require condition why) := by
  unfold Action.require
  split
  · exact .pure
  · exact .throw

theorem refuseIf {o : Option Refusal} : Reads (refuseIf o) := by
  cases o
  · exact .pure
  · exact .throw

theorem someOr {o : Option α} {why : Refusal} : Reads (someOr why o) := by
  cases o
  · exact .throw
  · exact .pure

theorem inRange {o : Option α} : Reads (inRange o) := by
  cases o
  · exact .throw
  · exact .pure

theorem ofExcept {e : Except Halt α} : Reads (ofExcept e) := by
  cases e
  · exact .throw
  · exact .pure

theorem account {name : String} : Reads (account name) := by
  unfold Action.account
  split
  · exact .pure
  · exact .throw

theorem address {written : String} : Reads (address written) := by
  unfold Action.address
  split
  · exact .pure
  · exact .throw

theorem config : Reads config := .bind .get fun _ => .someOr

theorem configFor {caller : Caller} : Reads (configFor caller) :=
  .bind .config fun _ => .bind .require fun _ => .pure

theorem forM {o : Option α} {f : α → Action PUnit} (each : ∀ a, Reads (f a)) : Reads (o.forM f) := by
  cases o with
  | none => exact .pure
  | some a => exact each a

theorem mapM {xs : List α} (each : ∀ a, Reads (f a)) : Reads (xs.mapM f) := by
  induction xs with
  | nil =>
    rw [List.mapM_nil]
    exact .pure
  | cons a rest ih =>
    rw [List.mapM_cons]
    exact .bind (each a) fun _ => .bind ih fun _ => .pure

end Reads

namespace Unrefusing

theorem pure {a : α} : Unrefusing (pure a) := ⟨haltsPure⟩

theorem get : Unrefusing get := ⟨haltsGet⟩

theorem set {s : Store} : Unrefusing (set s) := ⟨haltsSet⟩

theorem modify {f : Store → Store} : Unrefusing (modify f) := ⟨haltsModify⟩

theorem inRange {o : Option α} : Unrefusing (inRange o) where
  never h := by
    obtain ⟨_, overflow, _⟩ := haltsInRange.1 h
    cases overflow

theorem bind (first : Unrefusing x) (rest : ∀ a, Unrefusing (f a)) : Unrefusing (x >>= f) where
  never h := by
    rcases haltsBind.1 h with before | ⟨a, _, _, after⟩
    · exact first.never before
    · exact (rest a).never after

end Unrefusing

namespace ChecksFirst

theorem reads (h : Reads x) : ChecksFirst x := ⟨h.halts⟩

theorem writes (h : Unrefusing x) : ChecksFirst x := ⟨fun stopped => absurd stopped h.never⟩

theorem after (first : Reads x) (rest : ∀ a, ChecksFirst (f a)) : ChecksFirst (x >>= f) where
  kept h := by
    rcases haltsBind.1 h with before | ⟨a, u, before, later⟩
    · exact first.halts before
    · rw [(rest a).kept later, first.yields before]

theorem before (first : ChecksFirst x) (rest : ∀ a, Unrefusing (f a)) : ChecksFirst (x >>= f) where
  kept h := by
    rcases haltsBind.1 h with before | ⟨a, _, _, later⟩
    · exact first.kept before
    · exact absurd later (rest a).never

end ChecksFirst

end Action

open TokenBridge.Action

variable {block : Block} {caller : Caller}

namespace Directory

theorem setOrchestratorChecksFirst {orchestrator signer : String} :
    ChecksFirst (setOrchestrator caller orchestrator signer) :=
  .after .account fun _ => .after .address fun _ => .after .get fun _ => .after .require fun _ =>
    .after .require fun _ => .before (.after .get fun _ => .after .require fun _ => .after .require fun _ =>
      .after .require fun _ => .writes .set) fun _ => .pure

theorem addStaticValidatorChecksFirst {name : String} : ChecksFirst (addStaticValidator caller name) :=
  .after .configFor fun _ => .after .account fun _ => .writes (.bind .modify fun _ => .pure)

theorem validatorOfReads {orchestrator : Account} : Reads (validatorOf orchestrator) := .bind .get fun _ => .someOr

theorem signerOfReads {validator : Account} : Reads (signerOf validator) := .bind .get fun _ => .someOr

end Directory

namespace SignerSet

theorem storeNextChecksFirst {view : StakeView} {height : UInt64} : ChecksFirst (storeNext view height) :=
  .after .get fun _ => .after .ofExcept fun _ => .after .require fun _ => .writes (.bind .modify fun _ => .pure)

theorem requestChecksFirst : ChecksFirst (request block caller) :=
  .after .config fun _ => .after .get fun _ => .after .require fun _ => .before storeNextChecksFirst fun _ => .pure

theorem confirmChecksFirst {nonce : UInt64} {signer : String} {signature : Blob} :
    ChecksFirst (confirm caller nonce signer signature) :=
  .after Directory.validatorOfReads fun _ => .after .address fun _ => .after .get fun _ => .after .require fun _ =>
    .after Directory.signerOfReads fun _ => .after .require fun _ => .after .require fun _ =>
      .writes (.bind .set fun _ => .pure)

end SignerSet

namespace Pool

theorem enqueueChecksFirst {sender : Account} {asset : Asset} {sent fee : Amount} {destination : String} :
    ChecksFirst (enqueue sender asset sent destination fee) :=
  .after .config fun _ => .after .require fun _ => .after .address fun _ => .after .get fun _ => .after .someOr fun _ =>
    .after .ofExcept fun _ => .after .get fun _ => .after .inRange fun _ => .writes (.bind .modify fun _ => .pure)

theorem sendToEthChecksFirst {destination : String} {fee : Amount} :
    ChecksFirst (sendToEth caller destination fee) := by
  unfold sendToEth
  split
  · exact .before enqueueChecksFirst fun _ => .pure
  · exact .reads .throw

theorem receiveChecksFirst {sender : String} {sent : Amount} {handover : Option Handover} :
    ChecksFirst (receive caller sender sent handover) :=
  .after .account fun _ => .after .someOr fun _ => .before enqueueChecksFirst fun _ => .pure

theorem cancelChecksFirst {id : UInt64} : ChecksFirst (cancel caller id) := by
  refine .after .get fun s => ?_
  split
  · split
    · exact .reads .throw
    · exact .reads .throw
  · exact .after .require fun _ => .writes (.bind .set fun _ => .bind .inRange fun _ => .pure)

end Pool

namespace Batching

theorem assembleChecksFirst {token : Address} {limit : Nat} {height timeout : UInt64} :
    ChecksFirst (assemble token limit height timeout) :=
  .after .get fun _ => .after .require fun _ => .after (.mapM fun _ => .someOr) fun _ =>
    .writes (.bind .modify fun _ => .bind .get fun _ => .bind .inRange fun _ => .bind .modify fun _ => .pure)

theorem requestChecksFirst {token : String} {limit : Option UInt32} : ChecksFirst (request block token limit) :=
  .after .config fun _ => .after .require fun _ => .after .address fun _ => .after .require fun _ =>
    .after .get fun _ => .after .require fun _ => .before assembleChecksFirst fun _ => .pure

theorem confirmChecksFirst {nonce : UInt64} {token signer : String} {signature : Blob} :
    ChecksFirst (confirm caller nonce token signer signature) :=
  .after Directory.validatorOfReads fun _ => .after .address fun _ => .after .address fun _ => .after .get fun _ =>
    .after .require fun _ => .after Directory.signerOfReads fun _ => .after .require fun _ => .after .require fun _ =>
      .writes (.bind .set fun _ => .pure)

end Batching

theorem Registry.registerTokenChecksFirst {token cw20 : String} : ChecksFirst (registerToken caller token cw20) :=
  .after .configFor fun _ => .after .address fun _ => .after .account fun _ => .after .get fun _ =>
    .after .refuseIf fun _ => .writes (.bind .set fun _ => .pure)

namespace Admin

theorem updateConfigChecksFirst {change : ConfigChange} : ChecksFirst (updateConfig caller change) :=
  .after .configFor fun _ => .after (.forM fun _ => .require) fun _ => .after (.forM fun _ => .require) fun _ =>
    .writes (.bind .modify fun _ => .pure)

theorem setMinimumFeeChecksFirst {fee : Amount} : ChecksFirst (setMinimumFee caller fee) :=
  .after .get fun _ => .after .require fun _ => .after .config fun _ => .after .require fun _ =>
    .writes (.bind .modify fun _ => .pure)

theorem pauseChecksFirst : ChecksFirst (pause caller) :=
  .after .configFor fun _ => .writes (.bind .modify fun _ => .pure)

theorem unpauseChecksFirst : ChecksFirst (unpause caller) :=
  .after .configFor fun _ => .writes (.bind .modify fun _ => .pure)

theorem proposeChecksFirst {name : String} : ChecksFirst (propose block caller name) :=
  .after .configFor fun _ => .after .account fun _ => .after .inRange fun _ => .writes (.bind .modify fun _ => .pure)

theorem acceptChecksFirst : ChecksFirst (accept block caller) :=
  .after .get fun _ => .after .someOr fun _ => .after .require fun _ => .after .require fun _ =>
    .after .config fun _ => .writes (.bind .modify fun _ => .pure)

theorem cancelProposalChecksFirst : ChecksFirst (cancelProposal caller) :=
  .after .configFor fun _ => .writes (.bind .modify fun _ => .pure)

end Admin

theorem Voting.castChecksFirst {policy : ConflictPolicy} {validator : Account} {claim : Claim} {height : UInt64} :
    ChecksFirst (cast policy validator claim height) :=
  .after .get fun _ => .after .ofExcept fun _ => .writes (.bind .set fun _ => .pure)

end TokenBridge
