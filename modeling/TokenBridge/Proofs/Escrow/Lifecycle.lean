import TokenBridge.Answers
import TokenBridge.Proofs.Escrow.Accounts
import Mathlib.Logic.ExistsUnique
/-!
The life of a transfer. From its number on it is pooled, batched, refunded or settled, and never two of these;
the last two are for good.
-/
namespace TokenBridge

open TokenBridge.Action

variable {x y : Transfer} {id : UInt64}

def carries (id : UInt64) (xs : List Transfer) : Bool := xs.any fun y => y.id = id

theorem carriesIff {xs : List Transfer} : carries id xs = true ↔ ∃ y ∈ xs, y.id = id := by
  simp [carries]

theorem soleCarrier {α : Type} {f : α → List Transfer} {as : List α} {a : α}
    (distinct : ((as.flatMap f).map Transfer.id).Nodup) (member : a ∈ as) (inside : x ∈ f a) :
    as.filter (fun a => carries x.id (f a)) = [a] := by
  induction as with
  | nil => cases member
  | cons head rest ih =>
    rw [List.flatMap_cons, List.map_append] at distinct
    obtain ⟨_, later, apart⟩ := List.nodup_append.1 distinct
    rcases List.mem_cons.1 member with rfl | member
    · have here : carries x.id (f a) = true := carriesIff.2 ⟨x, inside, rfl⟩
      rw [List.filter_cons, if_pos here]
      congr 1
      refine List.filter_eq_nil_iff.2 fun other found carried => ?_
      obtain ⟨y, insideOther, same⟩ := carriesIff.1 carried
      refine apart x.id (List.mem_map_of_mem inside) y.id ?_ same.symm
      exact List.mem_map_of_mem (List.mem_flatMap.2 ⟨other, found, insideOther⟩)
    · have notHere : ¬ carries x.id (f head) = true := by
        intro carried
        obtain ⟨y, insideHead, same⟩ := carriesIff.1 carried
        refine apart y.id (List.mem_map_of_mem insideHead) x.id ?_ same
        exact List.mem_map_of_mem (List.mem_flatMap.2 ⟨a, member, inside⟩)
      rw [List.filter_cons, if_neg notHere]
      exact ih later member

theorem partDistinct {α : Type} {f : α → List Transfer} {as : List α} {a : α}
    (distinct : ((as.flatMap f).map Transfer.id).Nodup) (member : a ∈ as) :
    ((f a).map Transfer.id).Nodup := by
  rw [List.map_flatMap] at distinct
  exact (List.nodup_flatMap.1 distinct).1 a member

theorem soleTransfer {xs : List Transfer} (distinct : (xs.map Transfer.id).Nodup) (inside : x ∈ xs) :
    xs.filter (fun y => y.id = x.id) = [x] := by
  have alone : (xs.flatMap fun y => [y]) = xs := by simp
  have sole := soleCarrier (f := fun y => [y]) (alone.symm ▸ distinct) inside (List.mem_singleton.2 rfl)
  simpa [carries] using sole

inductive Stage where
  | pooled
  | batched
  | refunded
  | settled
  deriving DecidableEq

namespace Journal

variable {j k : Journal}

def Pooled (j : Journal) (x : Transfer) : Prop :=
  j.store.pool.get? x.id = some x ∧ ∀ y ∈ j.store.batched, y.id ≠ x.id

def Batched (j : Journal) (x : Transfer) : Prop :=
  j.store.pool.get? x.id = none ∧
    ∃ b, j.store.batches.values.filter (fun b => carries x.id b.transfers) = [b] ∧
      b.transfers.filter (fun y => y.id = x.id) = [x]

def Refunded (j : Journal) (x : Transfer) : Prop :=
  ∃ d, j.deeds.filter (fun d => d.order.cancels? = some x.id) = [d] ∧ d.GivesBack x

def Settled (j : Journal) (x : Transfer) : Prop :=
  ∃ o b, j.settlements.filter (fun e => carries x.id e.2.transfers) = [(o, b)] ∧
    b.transfers.filter (fun y => y.id = x.id) = [x]

def InStage (j : Journal) (x : Transfer) : Stage → Prop
  | .pooled => j.Pooled x
  | .batched => j.Batched x
  | .refunded => j.Refunded x
  | .settled => j.Settled x

def atStage (j : Journal) : Stage → List Transfer
  | .pooled => j.store.pool.values
  | .batched => j.store.batched
  | .refunded => j.refunded
  | .settled => j.settled

namespace Accounted

variable (h : Accounted j)
include h

theorem enteredDistinct : (j.entered.map Transfer.id).Nodup := by
  have numbers : (j.entered.map fun x => x.id.toNat).Nodup := by
    rw [h.numbers]
    exact List.nodup_range'
  have same : (j.entered.map fun x => x.id.toNat) = (j.entered.map Transfer.id).map UInt64.toNat := by
    simp
  rw [same] at numbers
  exact numbers.of_map _

theorem allDistinct : ((j.refunded ++ j.settled ++ j.store.held).map Transfer.id).Nodup :=
  (h.balance.map Transfer.id).nodup_iff.2 h.enteredDistinct

theorem refundedDistinct : (j.refunded.map Transfer.id).Nodup := by
  have all := h.allDistinct
  rw [List.append_assoc, List.map_append] at all
  exact (List.nodup_append.1 all).1

theorem settledDistinct : (j.settled.map Transfer.id).Nodup := by
  have all := h.allDistinct
  rw [List.map_append, List.map_append] at all
  exact (List.nodup_append.1 (List.nodup_append.1 all).1).2.1

theorem batchedDistinct : (j.store.batched.map Transfer.id).Nodup := by
  have held := h.holding.distinct
  rw [Store.held, List.map_append] at held
  exact (List.nodup_append.1 held).2.1

theorem poolApart (pooled : x ∈ j.store.pool.values) (batched : y ∈ j.store.batched) :
    y.id ≠ x.id := by
  have held := h.holding.distinct
  rw [Store.held, List.map_append] at held
  exact ((List.nodup_append.1 held).2.2 _ (List.mem_map_of_mem pooled) _
    (List.mem_map_of_mem batched)).symm

theorem pooledIff : j.Pooled x ↔ x ∈ j.store.pool.values := by
  constructor
  · rintro ⟨here, _⟩
    exact SortedMap.memValues.2 ⟨x.id, here⟩
  · intro inside
    obtain ⟨k, found⟩ := SortedMap.memValues.1 inside
    have number := h.holding.indexed.keyed k x found
    exact ⟨by rw [number]; exact found, fun y batched => h.poolApart inside batched⟩

theorem batchedIff : j.Batched x ↔ x ∈ j.store.batched := by
  constructor
  · rintro ⟨_, b, sole, once⟩
    have stored : b ∈ j.store.batches.values :=
      List.mem_of_mem_filter (sole ▸ List.mem_singleton.2 rfl)
    have inside : x ∈ b.transfers := List.mem_of_mem_filter (once ▸ List.mem_singleton.2 rfl)
    exact List.mem_flatMap.2 ⟨b, stored, inside⟩
  · intro batched
    obtain ⟨b, stored, inside⟩ := List.mem_flatMap.1 batched
    refine ⟨?_, b, soleCarrier h.batchedDistinct stored inside, soleTransfer ?_ inside⟩
    · cases found : j.store.pool.get? x.id with
      | none => rfl
      | some y =>
        have pooled := SortedMap.memValues.2 ⟨x.id, found⟩
        have number := h.holding.indexed.keyed _ y found
        exact absurd number.symm (h.poolApart pooled batched)
    · exact partDistinct h.batchedDistinct stored

theorem refundedIff : j.Refunded x ↔ x ∈ j.refunded := by
  constructor
  · rintro ⟨d, sole, caller, total, order, _, here, _⟩
    have done : d ∈ j.deeds := List.mem_of_mem_filter (sole ▸ List.mem_singleton.2 rfl)
    refine List.mem_flatMap.2 ⟨d, done, ?_⟩
    simp [Deed.refunds, order, Order.cancels?, here]
  · intro inside
    obtain ⟨d, done, refunds⟩ := List.mem_flatMap.1 inside
    have givesBack := fun d done => (h.booked d done).sound.givesBack
    have cancels : ∀ d ∈ j.deeds, (carries x.id d.refunds = decide (d.order.cancels? = some x.id)) := by
      intro d done
      cases cancels : d.order.cancels? with
      | none => simp [carries, Deed.refunds, cancels]
      | some id =>
        obtain ⟨y, number, refunds, _⟩ := givesBack d done id cancels
        simp [carries, refunds, number]
    have sole := soleCarrier h.refundedDistinct done refunds
    rw [List.filter_congr cancels] at sole
    have carried : carries x.id d.refunds = true := carriesIff.2 ⟨x, refunds, rfl⟩
    rw [cancels d done, decide_eq_true_eq] at carried
    obtain ⟨y, _, same, back⟩ := givesBack d done _ carried
    rw [same, List.mem_singleton] at refunds
    exact ⟨d, sole, refunds ▸ back⟩

theorem settledIff : j.Settled x ↔ x ∈ j.settled := by
  constructor
  · rintro ⟨o, b, sole, once⟩
    have found : (o, b) ∈ j.settlements := List.mem_of_mem_filter (sole ▸ List.mem_singleton.2 rfl)
    have inside : x ∈ b.transfers := List.mem_of_mem_filter (once ▸ List.mem_singleton.2 rfl)
    exact List.mem_flatMap.2 ⟨(o, b), found, inside⟩
  · intro inside
    obtain ⟨⟨o, b⟩, found, carried⟩ := List.mem_flatMap.1 inside
    have distinct := h.settledDistinct
    unfold settled at distinct
    have part := partDistinct distinct found
    exact ⟨o, b, soleCarrier distinct found carried, soleTransfer part carried⟩

theorem heldIff : x ∈ j.store.held ↔ x ∈ j.entered ∧ ¬ j.Refunded x ∧ ¬ j.Settled x := by
  rw [h.refundedIff, h.settledIff]
  have all := h.allDistinct
  rw [List.map_append, List.map_append] at all
  obtain ⟨_, _, apart⟩ := List.nodup_append.1 all
  constructor
  · intro held
    have number := List.mem_map_of_mem (f := Transfer.id) held
    refine ⟨h.balance.subset (List.mem_append_right _ held), fun back => ?_, fun done => ?_⟩
    · exact apart _ (List.mem_append_left _ (List.mem_map_of_mem back)) _ number rfl
    · exact apart _ (List.mem_append_right _ (List.mem_map_of_mem done)) _ number rfl
  · rintro ⟨entered, notBack, notDone⟩
    have somewhere := h.balance.symm.subset entered
    simpa [notBack, notDone] using somewhere

theorem sameTransfer (entered : x ∈ j.entered)
    (found : y ∈ j.refunded ++ j.settled ++ j.store.held) (same : y.id = x.id) : y = x :=
  List.inj_on_of_nodup_map h.enteredDistinct (h.balance.subset found) entered same

theorem inStageIff (stage : Stage) : j.InStage x stage ↔ x ∈ j.atStage stage := by
  cases stage with
  | pooled => exact h.pooledIff
  | batched => exact h.batchedIff
  | refunded => exact h.refundedIff
  | settled => exact h.settledIff

-- A transfer in the lists of two stages would be counted twice; over all four lists it counts at most once.
theorem stagesApart {here there : Stage} (a : x ∈ j.atStage here) (b : x ∈ j.atStage there) :
    here = there := by
  have once := (List.nodup_iff_count.1 (h.allDistinct.of_map _)) x
  rw [Store.held, List.count_append, List.count_append, List.count_append] at once
  have one := List.count_pos_iff.2 a
  have other := List.count_pos_iff.2 b
  cases here <;> cases there <;> first | rfl | (simp only [atStage] at one other; omega)

theorem oneStage (entered : x ∈ j.entered) : ∃! stage, j.InStage x stage := by
  have somewhere := h.balance.symm.subset entered
  simp only [Store.held, List.mem_append] at somewhere
  have found : ∃ stage, x ∈ j.atStage stage := by
    rcases somewhere with (back | done) | (pooled | batched)
    · exact ⟨.refunded, back⟩
    · exact ⟨.settled, done⟩
    · exact ⟨.pooled, pooled⟩
    · exact ⟨.batched, batched⟩
  obtain ⟨stage, here⟩ := found
  refine ⟨stage, (h.inStageIff stage).2 here, fun other there => ?_⟩
  exact h.stagesApart ((h.inStageIff other).1 there) here

theorem oneOrigin (entered : x ∈ j.entered) :
    ∃ d, j.deeds.filter (fun d => carries x.id d.enters) = [d] ∧
      d.order.entersFor? = some x.sender ∧ d.enters = [x] := by
  obtain ⟨d, done, enters⟩ := List.mem_flatMap.1 entered
  refine ⟨d, soleCarrier h.enteredDistinct done enters, ?_⟩
  cases entersFor : d.order.entersFor? with
  | none => simp [Deed.enters, entersFor] at enters
  | some sender =>
    obtain ⟨y, _, _, _, _, single, _, facts, _⟩ := (h.booked d done).sound.takesIn sender entersFor
    rw [single, List.mem_singleton] at enters
    subst enters
    exact ⟨by rw [facts.ofSender], single⟩

theorem pendingListed {name : String} {sender : Account}
    (valid : Account.validate name = .ok sender) :
    ∃ p, Answers.transfersOf j.store name = .ok p ∧ (p.batched ++ p.pooled).Nodup ∧
      ∀ x, x ∈ p.batched ++ p.pooled ↔
        x ∈ j.entered ∧ x.sender = sender ∧ ¬ j.Refunded x ∧ ¬ j.Settled x := by
  have read : Answers.account name = .ok sender := by simp [Answers.account, valid, Except.mapError]
  refine ⟨⟨j.store.batched.filter fun y => y.sender = sender,
    j.store.pool.values.filter fun y => y.sender = sender⟩, ?_, ?_, fun x => ?_⟩
  · simp [Answers.transfersOf, read, bind, Except.bind, pure, Except.pure]
  · rw [← List.filter_append]
    refine List.Nodup.filter _ ((List.perm_append_comm.nodup_iff).1 ?_)
    exact h.holding.distinct.of_map _
  · have held := h.heldIff (x := x)
    simp only [Store.held, List.mem_append] at held
    simp only [List.mem_append, List.mem_filter, decide_eq_true_eq]
    constructor
    · rintro (⟨inside, own⟩ | ⟨inside, own⟩)
      · obtain ⟨entered, notBack, notDone⟩ := held.1 (.inr inside)
        exact ⟨entered, own, notBack, notDone⟩
      · obtain ⟨entered, notBack, notDone⟩ := held.1 (.inl inside)
        exact ⟨entered, own, notBack, notDone⟩
    · rintro ⟨entered, own, notBack, notDone⟩
      rcases held.2 ⟨entered, notBack, notDone⟩ with pooled | batched
      · exact .inr ⟨pooled, own⟩
      · exact .inl ⟨batched, own⟩

end Accounted

theorem Follows.grows (h : Follows j k) (run : Run j) :
    (∀ x ∈ j.entered, x ∈ k.entered) ∧ (∀ x, j.Refunded x → k.Refunded x) ∧
      ∀ x, j.Settled x → k.Settled x := by
  have before := run.accounted
  have after := (h.run run).accounted
  obtain ⟨more, same⟩ := h.deeds run
  refine ⟨fun x inside => ?_, fun x back => ?_, fun x done => ?_⟩
  · rw [entered, same, List.flatMap_append]
    exact List.mem_append_left _ inside
  · rw [after.refundedIff, refunded, same, List.flatMap_append]
    exact List.mem_append_left _ (before.refundedIff.1 back)
  · rw [after.settledIff, settled, settlements, same, List.flatMap_append, List.flatMap_append]
    exact List.mem_append_left _ (before.settledIff.1 done)

/-- Each number given out is of one transfer, which is in one of four stages, the last two for good. -/
theorem Run.transferLifecycle (run : Run j) :
    j.entered.map (fun x => x.id.toNat) = List.range' 1 j.store.lastTransfer.toNat ∧
    (∀ d ∈ j.deeds, ∀ sender, d.order.entersFor? = some sender → d.TakesIn sender) ∧
    (∀ x ∈ j.entered, ∃ d, j.deeds.filter (fun d => carries x.id d.enters) = [d] ∧
      d.order.entersFor? = some x.sender ∧ d.enters = [x]) ∧
    (∀ x ∈ j.entered, ∃! stage, j.InStage x stage) ∧
    (∀ k, Follows j k → ∀ x ∈ j.entered, x ∈ k.entered ∧
      (j.Refunded x → k.Refunded x) ∧ (j.Settled x → k.Settled x) ∧
      ∀ y ∈ k.refunded ++ k.settled ++ k.store.held, y.id = x.id → y = x) ∧
    ∀ name sender, Account.validate name = .ok sender →
      ∃ p, Answers.transfersOf j.store name = .ok p ∧ (p.batched ++ p.pooled).Nodup ∧
        ∀ x, x ∈ p.batched ++ p.pooled ↔
          x ∈ j.entered ∧ x.sender = sender ∧ ¬ j.Refunded x ∧ ¬ j.Settled x := by
  have accounted := run.accounted
  refine ⟨accounted.numbers, fun d done => (accounted.booked d done).sound.takesIn,
    fun x inside => accounted.oneOrigin inside, fun x inside => accounted.oneStage inside, ?_,
    fun name sender valid => accounted.pendingListed valid⟩
  intro k follows x inside
  obtain ⟨grown, back, done⟩ := follows.grows run
  refine ⟨grown x inside, back x, done x, fun y found same => ?_⟩
  exact (follows.run run).accounted.sameTransfer (grown x inside) found same

theorem tradedLifecycle :
    traded.entered.map (fun x => x.id.toNat) = [1, 2, 3] ∧
      ∀ x ∈ traded.entered, ∃! stage, traded.InStage x stage := by
  have last : traded.store.lastTransfer = 3 := by decide +kernel
  obtain ⟨numbers, _, _, stages, _⟩ := Run.transferLifecycle tradedRun
  rw [last] at numbers
  exact ⟨numbers, stages⟩

end Journal

end TokenBridge
