import TokenBridge.Proofs.Outcome.Movement
/-!
Runs of the bridge: set up once on an empty store, then any orders in any blocks. A journal keeps what
was carried out, each deed with the stores before and after it; an order that halts leaves no deed.
-/
namespace TokenBridge

def Amount.small (n : UInt64) : Amount := ⟨n.toNat, Nat.lt_trans n.toNat_lt (by decide)⟩

structure Deed where
  before : Store
  block : Block
  order : Order
  response : Response
  after : Store
  deriving DecidableEq

structure Journal where
  deeds : List Deed
  store : Store
  deriving DecidableEq

namespace Journal

def start : Journal := ⟨[], .empty⟩

def deliver (j : Journal) (block : Block) (order : Order) : Journal :=
  match (Chain.mk j.store block).deliver order with
  | (.ok response, after) =>
    ⟨j.deeds ++ [⟨j.store, block, order, response, after.store⟩], after.store⟩
  | (.error _, after) => { j with store := after.store }

/-- A run begins with a set-up that succeeds; no later order sets up again. -/
inductive Run : Journal → Prop where
  | setUp {block : Block} {m : Setup}
      (done : (start.deliver block (.setUp m)).deeds ≠ []) :
      Run (start.deliver block (.setUp m))
  | order {j : Journal} (past : Run j) (block : Block) (order : Order)
      (later : order.setsUp = false) : Run (j.deliver block order)

def observations (j : Journal) : List Observation := j.deeds.flatMap fun d => d.response.observations

def messages (j : Journal) : List LedgerMessage := j.deeds.flatMap fun d => d.response.messages

inductive Follows : Journal → Journal → Prop where
  | here (j : Journal) : Follows j j
  | later {j k : Journal} (past : Follows j k) (block : Block) (order : Order)
      (later : order.setsUp = false) : Follows j (k.deliver block order)

theorem Follows.run {j k : Journal} (h : Follows j k) (run : Run j) : Run k := by
  induction h with
  | here => exact run
  | later past block order later ih => exact .order ih block order later

theorem deliverCases (j : Journal) (block : Block) (order : Order) :
    (∃ r t, Action.Yields (Chain.action block order) j.store r t ∧
      j.deliver block order = ⟨j.deeds ++ [⟨j.store, block, order, r, t⟩], t⟩) ∨
    j.deliver block order = j := by
  unfold deliver Chain.deliver
  cases outcome : (Chain.action block order).commit j.store with
  | mk result t =>
    cases result with
    | ok r => exact .inl ⟨r, t, Action.committed.1 outcome, rfl⟩
    | error halt =>
      have same : t = j.store := Action.halted outcome
      exact .inr (by rw [same])

theorem deliverYields {j : Journal} {block : Block} {order : Order} {r : Response} {t : Store}
    (h : Action.Yields (Chain.action block order) j.store r t) :
    j.deliver block order = ⟨j.deeds ++ [⟨j.store, block, order, r, t⟩], t⟩ := by
  unfold deliver Chain.deliver
  rw [Action.committed.2 h]

theorem deliverDeed {j : Journal} {block : Block} {order : Order} {d : Deed}
    (delivered : (j.deliver block order).deeds = j.deeds ++ [d]) :
    d.before = j.store ∧ d.block = block ∧ d.order = order ∧
      Action.Yields (Chain.action block order) j.store d.response d.after := by
  rcases deliverCases j block order with ⟨r, t, yields, same⟩ | same
  · rw [same] at delivered
    have last := (List.append_inj' delivered rfl).2
    simp only [List.cons.injEq, and_true] at last
    rw [← last]
    exact ⟨rfl, rfl, rfl, yields⟩
  · rw [same] at delivered
    simp at delivered

@[elab_as_elim]
theorem Run.keeps {P : Journal → Prop}
    (setUp : ∀ block m r t, Action.Yields (Contract.setUp m) .empty r t →
      P ⟨[⟨.empty, block, .setUp m, r, t⟩], t⟩)
    (deed : ∀ j block order r t, Run j → P j → order.setsUp = false →
      Action.Yields (Chain.action block order) j.store r t →
      P ⟨j.deeds ++ [⟨j.store, block, order, r, t⟩], t⟩)
    {j : Journal} (run : Run j) : P j := by
  induction run with
  | @setUp block m done =>
    rcases deliverCases start block (.setUp m) with ⟨r, t, yields, same⟩ | same
    · rw [same]
      exact setUp block m r t yields
    · exact absurd (congrArg deeds same) done
  | @order j past block order later ih =>
    rcases deliverCases j block order with ⟨r, t, yields, same⟩ | same
    · rw [same]
      exact deed j block order r t past ih later yields
    · rw [same]
      exact ih

@[elab_as_elim]
theorem Follows.keeps {P : Journal → Prop} {j k : Journal} (h : Follows j k) (run : Run j)
    (here : P j)
    (deed : ∀ i block order r t, Run i → P i → order.setsUp = false →
      Action.Yields (Chain.action block order) i.store r t →
      P ⟨i.deeds ++ [⟨i.store, block, order, r, t⟩], t⟩) : P k := by
  induction h with
  | here => exact here
  | @later k past block order later ih =>
    rcases deliverCases k block order with ⟨r, t, yields, same⟩ | same
    · rw [same]
      exact deed k block order r t (past.run run) ih later yields
    · rw [same]
      exact ih

theorem Run.points {j : Journal} (run : Run j) : ∀ d ∈ j.deeds,
    (∃ m, Action.Yields (Contract.setUp m) .empty d.response d.after) ∨
    ∃ i more, Run i ∧ d.before = i.store ∧ j.deeds = i.deeds ++ d :: more ∧
      d.order.setsUp = false ∧
      Action.Yields (Chain.action d.block d.order) i.store d.response d.after := by
  -- The induction follows the orders themselves, not `Run.keeps`, since an earlier point is to be named.
  induction run with
  | @setUp block m done =>
    rcases deliverCases start block (.setUp m) with ⟨r, t, yields, same⟩ | same
    · rw [same]
      intro d found
      cases List.mem_singleton.1 found
      exact .inl ⟨m, yields⟩
    · exact absurd (congrArg deeds same) done
  | @order j past block order later ih =>
    rcases deliverCases j block order with ⟨r, t, yields, same⟩ | same
    · rw [same]
      intro d found
      rcases List.mem_append.1 found with old | new
      · rcases ih d old with first | ⟨i, more, run, before, split, rest⟩
        · exact .inl first
        · refine .inr ⟨i, more ++ [⟨j.store, block, order, r, t⟩], run, before, ?_, rest⟩
          rw [split, List.append_assoc]
          rfl
      · cases List.mem_singleton.1 new
        exact .inr ⟨j, [], past, rfl, rfl, later, yields⟩
    · rw [same]
      exact ih

def deliverAll (j : Journal) (orders : List (Block × Order)) : Journal :=
  orders.foldl (fun j o => j.deliver o.1 o.2) j

theorem Run.deliverAll {j : Journal} {orders : List (Block × Order)} (run : Run j)
    (later : ∀ o ∈ orders, o.2.setsUp = false) : Run (j.deliverAll orders) := by
  induction orders generalizing j with
  | nil => exact run
  | cons o rest ih =>
    exact ih (.order run o.1 o.2 (later o (List.mem_cons_self ..))) fun other found =>
      later other (List.mem_cons_of_mem _ found)

def opened : Journal :=
  (start.deliver ⟨100, 1⟩ (.setUp
    ⟨"admin", "bridge", ["validator"], [⟨"validator", 10⟩], none, none, none, none, none, none,
      none⟩)).deliver ⟨101, 2⟩ (.execute ⟨⟨"validator"⟩, []⟩
        (.setOrchestrator "orch" "0x0000000000000000000000000000000000000001"))

theorem openedRun : Run opened :=
  .order (.setUp (by decide)) _ _ rfl

def paired : Journal :=
  opened.deliver ⟨102, 3⟩ (.execute ⟨⟨"orch"⟩, []⟩
    (.submitClaim ⟨1, 50, .tokenDeployed "atom" .zero "Atom" "ATM" 6⟩))

theorem pairedRun : Run paired := .order openedRun _ _ rfl

def withdrawal (name : String) (sent fee : Amount) : Order :=
  .execute ⟨⟨name⟩, [("atom", sent)]⟩
    (.sendToEth "0x0000000000000000000000000000000000000002" fee)

def traded : Journal :=
  paired.deliverAll
    [(⟨103, 4⟩, withdrawal "alice" (.small 100) (.small 7)),
      (⟨104, 5⟩, withdrawal "bob" (.small 50) (.small 3)),
      (⟨105, 6⟩, .execute ⟨⟨"carol"⟩, []⟩
        (.requestBatch "0x0000000000000000000000000000000000000000" (some 1))),
      (⟨106, 7⟩, .execute ⟨⟨"orch"⟩, []⟩ (.submitClaim ⟨2, 60, .batchExecuted 1 .zero⟩)),
      (⟨107, 8⟩, .execute ⟨⟨"bob"⟩, []⟩ (.cancelTransfer 2)),
      (⟨108, 9⟩, withdrawal "alice" (.small 30) (.small 1))]

theorem tradedRun : Run traded := pairedRun.deliverAll (by decide)

end Journal

end TokenBridge
