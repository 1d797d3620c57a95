import TokenBridge.Proofs.Escrow.Passes
import TokenBridge.Proofs.Journal
/-!
The books of a run. Every transfer that was taken in is held, was called back, or was in a batch whose
execution was observed, and in one of these only once.
-/
namespace TokenBridge

open TokenBridge.Action

variable {s t : Store} {block : Block} {r : Response} {order : Order}

namespace Deed

def enters (d : Deed) : List Transfer :=
  match d.order.entersFor? with
  | some _ => (d.after.pool.get? d.after.lastTransfer).toList
  | none => []

def refunds (d : Deed) : List Transfer :=
  match d.order.cancels? with
  | some id => (d.before.pool.get? id).toList
  | none => []

def settlements (d : Deed) : List (Observation × Batch) :=
  TokenBridge.settlements d.before d.response.observations

def TakesIn (d : Deed) (sender : Account) : Prop :=
  ∃ x asset sent fee method, d.enters = [x] ∧ d.order.brings = [(asset, sent)] ∧
    Pool.Entered d.before sender asset sent fee x ∧ d.response = Pool.receipt method x

def GivesBack (d : Deed) (x : Transfer) : Prop :=
  ∃ caller total, d.order = .execute caller (.cancelTransfer x.id) ∧ caller.sender = x.sender ∧
    d.before.pool.get? x.id = some x ∧ total.val = x.amount.val + x.fee.val ∧
    d.response.messages = [x.asset.payout x.sender total]

structure Sound (d : Deed) : Prop where
  takesIn : ∀ sender, d.order.entersFor? = some sender → d.TakesIn sender
  givesBack : ∀ id, d.order.cancels? = some id → ∃ x, x.id = id ∧ d.refunds = [x] ∧ d.GivesBack x

theorem soundStill {d : Deed} (still : d.order.Still) : d.Sound where
  takesIn sender entersFor := by
    rw [still.entersFor] at entersFor
    cases entersFor
  givesBack id cancels := by
    rw [still.cancels] at cancels
    cases cancels

theorem entersStill {d : Deed} (still : d.order.Still) : d.enters = [] := by
  simp [enters, still.entersFor]

theorem refundsStill {d : Deed} (still : d.order.Still) : d.refunds = [] := by
  simp [refunds, still.cancels]

theorem settlementsNone {d : Deed} (unobserving : d.response.observations = []) :
    d.settlements = [] := by
  simp [settlements, TokenBridge.settlements, unobserving]

end Deed

theorem totalVal {x : Transfer} {total : Amount} (h : x.total? = some total) :
    total.val = x.amount.val + x.fee.val := by
  unfold Transfer.total? Amount.add? Amount.ofNat? at h
  split at h
  · cases h
    rfl
  · cases h

structure Deed.Booked (d : Deed) : Prop where
  exchanged : Exchanged d.enters (d.refunds ++ d.settlements.flatMap fun e => e.2.transfers)
    d.before d.after
  numbers : d.enters.map (fun x => x.id.toNat) =
    List.range' (d.before.lastTransfer.toNat + 1) d.enters.length
  last : d.after.lastTransfer.toNat = d.before.lastTransfer.toNat + d.enters.length
  sound : d.Sound

theorem Deed.bookedStill {d : Deed} (still : d.order.Still)
    (unobserving : d.response.observations = []) (kept : Exchanged [] [] d.before d.after)
    (last : d.after.lastTransfer = d.before.lastTransfer) : d.Booked where
  exchanged := by
    rw [entersStill still, refundsStill still, settlementsNone unobserving]
    exact kept
  numbers := by
    rw [entersStill still]
    rfl
  last := by
    rw [entersStill still, last]
    rfl
  sound := soundStill still

theorem Movement.booked (h : Holding s) (moved : Movement block s order r t) :
    (Deed.mk s block order r t).Booked := by
  cases moved with
  | administered still _ moved _ unobserving =>
    exact Deed.bookedStill still unobserving (moved.escrow.exchanged h) moved.escrow.lastTransfer
  | reported still after _ unobserving =>
    have kept := (Directory.reportMoves order.reports s).escrow
    rw [← after] at kept
    exact Deed.bookedStill still unobserving (kept.exchanged h) kept.lastTransfer
  | @entered x sender asset sent fee method brings entersFor uncalled _ entered answer after =>
    have enters : (Deed.mk s block order r t).enters = [x] := by
      simp [Deed.enters, entersFor, after, Pool.add]
    constructor
    case exchanged =>
      have refunds : (Deed.mk s block order r t).refunds = [] := by simp [Deed.refunds, uncalled]
      rw [enters, refunds, Deed.settlementsNone (by rw [answer]; rfl), after]
      exact Pool.enterExchanged h entered
    case numbers =>
      rw [enters]
      simp [Counter.nextVal entered.numbered, List.range'_one]
    case last =>
      rw [enters, after]
      exact Counter.nextVal entered.numbered
    case sound =>
      refine ⟨fun other same => ?_, fun id cancels => ?_⟩
      · rw [entersFor] at same
        cases same
        exact ⟨x, asset, sent, fee, method, enters, brings, entered, answer⟩
      · rw [uncalled] at cancels
        cases cancels
  | @cancelled caller x total id order here own sum paid unobserving after =>
    have number := h.indexed.keyed id x here
    subst number order
    have refunds : (Deed.mk s block (.execute caller (.cancelTransfer x.id)) r t).refunds = [x] := by
      simp [Deed.refunds, Order.cancels?, here]
    constructor
    case exchanged =>
      rw [refunds, Deed.settlementsNone unobserving, after]
      exact Pool.removeExchanged h here
    case numbers => rfl
    case last =>
      rw [after]
      rfl
    case sound =>
      refine ⟨fun sender entersFor => ?_, fun id cancels => ?_⟩
      · cases entersFor
      · cases cancels
        exact ⟨x, rfl, refunds, caller, total, rfl, own.symm, here, totalVal sum, paid⟩
  | @assembled token limit height timeout b still _ made _ unobserving =>
    refine Deed.bookedStill still unobserving (Batching.assembleExchanged h made) ?_
    obtain ⟨_, _, _, _, _, rfl⟩ := Batching.assembleMoves made
    rfl
  | @registered caller written cw20 token a order valid free after _ unobserving =>
    obtain ⟨parked, unparked⟩ := Registry.unparkAllMoves token (Registry.parkedFor s token)
      (Registry.pair ⟨token, .cw20 a, false⟩ s)
    rw [unparked] at after
    subst order after
    refine Deed.bookedStill ⟨rfl, rfl, rfl⟩ unobserving ?_ rfl
    exact h.keep rfl rfl rfl rfl rfl (Registry.pairTokens (p := ⟨token, .cw20 a, false⟩) free)
  | @observed u v w os dissolved still _ voted pass returned moved answers =>
    have first := voted.escrow.exchanged h
    have fewer : Batching.FewerBatches s u := fun k b found => by
      rw [← voted.escrow.batches]
      exact found
    obtain ⟨passed, _, last⟩ := Observing.passExchanged first.holding pass fewer
    obtain ⟨back, _⟩ := Batching.dissolvesExchanged passed.holding returned
    have final := moved.escrow.exchanged back.holding
    have settlements : (Deed.mk s block order r t).settlements = TokenBridge.settlements s os := by
      simp [Deed.settlements, answers.observations]
    have sameLast : t.lastTransfer = s.lastTransfer := by
      have unmoved : w.lastTransfer = v.lastTransfer := by
        obtain ⟨_, _, _, _, rfl⟩ := Batching.dissolvesMove returned
        rfl
      rw [moved.escrow.lastTransfer, unmoved, last, voted.escrow.lastTransfer]
    constructor
    case exchanged =>
      rw [Deed.entersStill still, Deed.refundsStill still, settlements]
      have whole := ((first.trans passed).trans back).trans final
      simpa [settled] using whole
    case numbers =>
      rw [Deed.entersStill still]
      rfl
    case last =>
      rw [Deed.entersStill still]
      exact congrArg UInt64.toNat sameLast
    case sound => exact Deed.soundStill still

theorem Contract.setUpBooked {m : Setup} (h : Yields (Contract.setUp m) .empty r t) :
    (Deed.mk .empty block (.setUp m) r t).Booked := by
  obtain ⟨kept, _, unobserving⟩ := Contract.setUpEscrow h
  exact Deed.bookedStill ⟨rfl, rfl, rfl⟩ unobserving (kept.exchanged .empty) kept.lastTransfer

namespace Journal

variable {j k : Journal}

def entered (j : Journal) : List Transfer := j.deeds.flatMap Deed.enters

def refunded (j : Journal) : List Transfer := j.deeds.flatMap Deed.refunds

def settlements (j : Journal) : List (Observation × Batch) := j.deeds.flatMap Deed.settlements

def settled (j : Journal) : List Transfer := j.settlements.flatMap fun e => e.2.transfers

structure Accounted (j : Journal) : Prop where
  holding : Holding j.store
  balance : (j.refunded ++ j.settled ++ j.store.held).Perm j.entered
  numbers : j.entered.map (fun x => x.id.toNat) = List.range' 1 j.store.lastTransfer.toNat
  booked : ∀ d ∈ j.deeds, d.Booked

theorem Accounted.deed {d : Deed} (h : Accounted j) (before : d.before = j.store) (booked : d.Booked) :
    Accounted ⟨j.deeds ++ [d], d.after⟩ where
  holding := booked.exchanged.holding
  balance := by
    refine List.perm_iff_count.2 fun x => ?_
    have past := h.balance.count_eq x
    have now := booked.exchanged.balance.count_eq x
    rw [before] at now
    simp only [refunded, settled, settlements, entered, List.flatMap_append, List.flatMap_cons,
      List.flatMap_nil, List.append_nil, List.count_append] at past now ⊢
    omega
  numbers := by
    have past := h.numbers
    have now := booked.numbers
    rw [before] at now
    simp only [entered] at past ⊢
    rw [List.flatMap_append, List.map_append, past, booked.last, before]
    simp only [List.flatMap_cons, List.flatMap_nil, List.append_nil]
    rw [now, Nat.add_comm j.store.lastTransfer.toNat 1, List.range'_append_1]
  booked := by
    intro e found
    rcases List.mem_append.1 found with old | new
    · exact h.booked e old
    · cases List.mem_singleton.1 new
      exact booked

theorem Run.accounted (run : Run j) : Accounted j := by
  refine Run.keeps ?setUp ?deed run
  case setUp =>
    intro block m r t yields
    have none : Accounted start := ⟨.empty, .refl _, rfl, fun d found => (nomatch found)⟩
    exact none.deed rfl (Contract.setUpBooked yields)
  case deed =>
    intro j block order r t _ past later yields
    exact past.deed rfl ((Chain.laterMovement later yields).booked past.holding)

theorem Follows.deeds (h : Follows j k) (run : Run j) : ∃ more, k.deeds = j.deeds ++ more := by
  refine Follows.keeps h run ⟨[], (List.append_nil _).symm⟩ ?_
  rintro i block order r t _ ⟨more, same⟩ _ _
  exact ⟨more ++ [⟨i.store, block, order, r, t⟩], by rw [same, List.append_assoc]⟩

end Journal

end TokenBridge
