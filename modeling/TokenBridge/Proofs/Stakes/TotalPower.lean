import TokenBridge.Proofs.Journal
import TokenBridge.Proofs.Stakes.Deficit
/-!
The total stake over whole runs. Only the set-up and the admin's reports touch stakes, so table and total are
what the reports of the run make of them, and the total is in sync just if every overflow was made up.
-/
namespace TokenBridge

open TokenBridge.Action

variable {s t u : Store} {block : Block} {r : Response} {order : Order}

structure StakesKept (s t : Store) : Prop where
  powers : t.powers = s.powers
  totalPower : t.totalPower = s.totalPower

theorem StakesKept.here : StakesKept s s := ⟨rfl, rfl⟩

theorem StakesKept.trans (h : StakesKept s t) (h' : StakesKept t u) : StakesKept s u :=
  ⟨h'.powers.trans h.powers, h'.totalPower.trans h.totalPower⟩

theorem PoolMoved.stakes (h : PoolMoved s t) : StakesKept s t := by
  obtain ⟨_, _, _, _, rfl⟩ := h
  exact ⟨rfl, rfl⟩

theorem EffectMoved.stakes (h : EffectMoved s t) : StakesKept s t := by
  obtain ⟨_, _, _, _, _, _, u, ⟨_, _, _, _, rfl⟩, rfl⟩ := h
  exact ⟨rfl, rfl⟩

theorem OfficeMoved.stakes (h : OfficeMoved s t) : StakesKept s t := by
  obtain ⟨_, _, _, _, _, _, _, _, _, _, _, rfl⟩ := h
  exact ⟨rfl, rfl⟩

theorem Voted.stakes (h : Voted block s t) : StakesKept s t := by
  rcases h with rfl | ⟨_, _, _, _, _, cast⟩
  · exact .here
  · obtain ⟨_, rfl⟩ := Voting.castYields cast
    exact ⟨rfl, rfl⟩

theorem Observing.passStakes {view : StakeView} {os : List Observation}
    (pass : Pass view block s os t) : StakesKept s t := by
  obtain ⟨_, _, _, moved⟩ := passMoves pass
  exact ⟨moved.stakes.powers, moved.stakes.totalPower⟩

theorem StakesKept.reports (h : StakesKept s t) (reports : List StakeReport) :
    StakesKept (reports.foldl (fun s r => s.setPower ⟨r.validator⟩ r.power) s)
      (reports.foldl (fun s r => s.setPower ⟨r.validator⟩ r.power) t) := by
  induction reports generalizing s t with
  | nil => exact h
  | cons r rest ih =>
    refine ih (s := s.setPower ⟨r.validator⟩ r.power) (t := t.setPower ⟨r.validator⟩ r.power) ?_
    unfold Store.setPower
    rw [h.powers, h.totalPower]
    exact ⟨rfl, rfl⟩

theorem Movement.stakes (moved : Movement block s order r t) :
    StakesKept (order.reports.foldl (fun s r => s.setPower ⟨r.validator⟩ r.power) s) t := by
  cases moved with
  | administered _ unreporting moved _ _ =>
    rw [unreporting]
    exact moved.stakes
  | reported _ after _ _ =>
    rw [after]
    exact .here
  | entered _ _ _ unreporting _ _ after =>
    rw [unreporting, after]
    exact ⟨rfl, rfl⟩
  | cancelled order _ _ _ _ _ after =>
    rw [order, after]
    exact ⟨rfl, rfl⟩
  | assembled _ unreporting made _ _ =>
    obtain ⟨_, _, _, _, _, rfl⟩ := Batching.assembleMoves made
    rw [unreporting]
    exact ⟨rfl, rfl⟩
  | registered order _ _ after _ _ =>
    obtain ⟨_, unparked⟩ := Registry.unparkAllMoves _ _ _
    rw [order, after, unparked]
    exact ⟨rfl, rfl⟩
  | observed _ unreporting voted pass returned moved _ =>
    rw [unreporting]
    have returning := (Batching.dissolvesMove returned).stakes
    exact ((voted.stakes.trans (Observing.passStakes pass)).trans returning).trans moved.stakes

theorem Contract.setUpStakes {m : Setup} (h : Yields (Contract.setUp m) .empty r t) :
    StakesKept (reported m.stakes) t := by
  obtain ⟨admin, _, rfl, _, _⟩ := Contract.setUpYields h
  have configured : StakesKept .empty { Store.empty with
      config := some (configOf admin m)
      staticValidators := m.staticValidators.foldl
        (fun table name => table.insert ⟨name⟩ ()) Store.empty.staticValidators } := ⟨rfl, rfl⟩
  exact (configured.reports m.stakes).trans ⟨rfl, rfl⟩

namespace Journal

variable {j : Journal}

def reports (j : Journal) : List StakeReport := j.deeds.flatMap fun d => d.order.reports

theorem Run.stakes (run : Run j) : StakesKept (reported j.reports) j.store := by
  refine Run.keeps ?setUp ?deed run
  case setUp =>
    intro block m r t yields
    have reports : reports ⟨[⟨.empty, block, .setUp m, r, t⟩], t⟩ = m.stakes := by
      simp [reports, Order.reports]
    rw [reports]
    exact Contract.setUpStakes yields
  case deed =>
    intro j block order r t _ past later yields
    have reports : reports ⟨j.deeds ++ [⟨j.store, block, order, r, t⟩], t⟩ =
        j.reports ++ order.reports := by simp [reports]
    rw [reports]
    unfold reported
    rw [List.foldl_append]
    exact (past.reports order.reports).trans (Chain.laterMovement later yields).stakes

/-- At every point of a run the total is at most the capped sum of the stakes, and it is the capped sum just if
whatever the sum once exceeded the largest total by, beyond what it exceeds it by now, has been made up. -/
theorem Run.totalInSync (run : Run j) :
    j.store.totalPower.toNat ≤ min j.store.stake Counter.largest ∧
      (j.store.totalPower.toNat = min j.store.stake Counter.largest ↔
        MadeUp j.reports (j.store.stake - Counter.largest)) := by
  have kept := run.stakes
  have sum : j.store.stake = (reported j.reports).stake := by
    unfold Store.stake
    rw [kept.powers]
  rw [sum, kept.totalPower]
  have within := reportedWithin j.reports
  have bound := (reported j.reports).totalPower.toNat_lt
  refine ⟨Nat.le_min.2 ⟨within, ?_⟩, reportedInSync j.reports⟩
  exact Nat.le_pred_of_lt bound

theorem Run.totalIsSum (run : Run j)
    (fits : ∀ i, (reported (j.reports.take i)).stake ≤ Counter.largest) :
    j.store.totalPower.toNat = j.store.stake := by
  have kept := run.stakes
  have sum : j.store.stake = (reported j.reports).stake := by
    unfold Store.stake
    rw [kept.powers]
  have none : (reported j.reports).deficit ≤ 0 :=
    (deficitIff _ 0).2 fun i _ => .inl (Nat.le_of_eq (Nat.sub_eq_zero_of_le (fits i)))
  have within := reportedWithin j.reports
  unfold Store.deficit at none
  rw [sum, kept.totalPower]
  omega

def capped : Journal :=
  (start.deliver ⟨100, 1⟩ (.setUp ⟨"admin", "bridge", [],
    [⟨"validator1", 18446744073709551615⟩, ⟨"validator2", 5⟩], none, none, none, none, none, none,
      none⟩)).deliver
    ⟨101, 2⟩ (.execute ⟨⟨"admin"⟩, []⟩ (.updatePowers [⟨"validator1", 0⟩]))

theorem cappedRun : Run capped := .order (.setUp (by decide)) _ _ rfl

theorem cappedNotMadeUp : ¬ MadeUp capped.reports (capped.store.stake - Counter.largest) := by
  intro madeUp
  have total := (Run.totalInSync cappedRun).2.2 madeUp
  have facts : capped.store.totalPower.toNat = 0 ∧ capped.store.stake = 5 := by decide +kernel
  rw [facts.1, facts.2] at total
  exact absurd total (by decide)

def plain : Journal :=
  start.deliver ⟨100, 1⟩ (.setUp ⟨"admin", "bridge", [], [⟨"validator2", 5⟩], none, none, none, none,
    none, none, none⟩)

theorem totalOutOfSync :
    Run capped ∧ capped.store.totalPower.toNat ≠ min capped.store.stake Counter.largest ∧
      Run plain ∧ plain.store.powers = capped.store.powers ∧
      plain.store.totalPower ≠ capped.store.totalPower := by
  have plainRun : Run plain := .setUp (by decide)
  exact ⟨cappedRun, by decide +kernel, plainRun, by decide +kernel⟩

end Journal

end TokenBridge
