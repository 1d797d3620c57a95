import TokenBridge.Proofs.Escrow.Accounts
import Mathlib.Algebra.BigOperators.Group.List.Basic
/-!
Sums of assets: what transfers are worth, what messages to the ledger pay out or burn, what orders bring along,
and what is locked.
-/
namespace TokenBridge

variable {s t : Store} {into out : List Transfer} {a : Asset}

def Transfer.worth (a : Asset) (x : Transfer) : Nat :=
  if x.asset = a then x.amount.val + x.fee.val else 0

def Batch.weight (b : Batch) : Nat := (b.transfers.map fun x => x.amount.val + x.fee.val).sum

def Store.escrowed (s : Store) (a : Asset) : Nat := (s.held.map (Transfer.worth a)).sum

def Store.lockedOf (s : Store) : Asset → Nat
  | .native denom => (s.locked.getD denom .zero).val
  | .cw20 _ => 0

namespace LedgerMessage

def sends (denom : String) : LedgerMessage → Nat
  | .send _ d amount => if d = denom then amount.val else 0
  | .call .. => 0

def transfers (contract : Account) : LedgerMessage → Nat
  | .call c (.transfer _ amount) => if c = contract then amount.val else 0
  | _ => 0

def burns (contract : Account) : LedgerMessage → Nat
  | .call c (.burn amount) => if c = contract then amount.val else 0
  | _ => 0

def releases (m : LedgerMessage) : Asset → Nat
  | .native denom => m.sends denom
  | .cw20 contract => m.transfers contract + m.burns contract

end LedgerMessage

def paidOut (messages : List LedgerMessage) (a : Asset) : Nat :=
  (messages.map fun m => m.releases a).sum

def Order.brought (order : Order) (a : Asset) : Nat :=
  (order.brings.map fun e => if e.1 = a then e.2.val else 0).sum

def Store.holds (s : Store) (a : Asset) : Nat := s.escrowed a + s.lockedOf a

theorem paidOutAppend (ms ns : List LedgerMessage) (a : Asset) :
    paidOut (ms ++ ns) a = paidOut ms a + paidOut ns a := by
  simp [paidOut]

theorem paidOutMinting {ms : List LedgerMessage}
    (minting : ∀ m ∈ ms, ∃ k whom n, m = .call k (.mint whom n)) : paidOut ms a = 0 := by
  refine List.sum_eq_zero fun n found => ?_
  obtain ⟨m, paid, rfl⟩ := List.mem_map.1 found
  obtain ⟨k, whom, n, rfl⟩ := minting m paid
  cases a <;> rfl

theorem paidOutPayout (b : Asset) (whom : Account) (amount : Amount) :
    paidOut [b.payout whom amount] a = if b = a then amount.val else 0 := by
  cases b with
  | native denom =>
    cases a with
    | native d => simp [paidOut, Asset.payout, LedgerMessage.releases, LedgerMessage.sends]
    | cw20 => rfl
  | cw20 contract =>
    cases a with
    | native => rfl
    | cw20 c =>
      simp [paidOut, Asset.payout, LedgerMessage.releases, LedgerMessage.transfers,
        LedgerMessage.burns]

theorem paidOutBurn (contract : Account) (amount : Amount) :
    paidOut (if amount.isZero then [] else [.call contract (.burn amount)]) a =
      if Asset.cw20 contract = a then amount.val else 0 := by
  by_cases zero : amount.isZero = true
  · have none : amount.val = 0 := by simpa [Amount.isZero] using zero
    simp [zero, none, paidOut]
  · cases a with
    | native => simp [zero, paidOut, LedgerMessage.releases, LedgerMessage.sends]
    | cw20 c =>
      simp [zero, paidOut, LedgerMessage.releases, LedgerMessage.transfers, LedgerMessage.burns]

theorem Exchanged.sums (h : Exchanged into out s t) (f : Transfer → Nat) :
    (out.map f).sum + (t.held.map f).sum = (into.map f).sum + (s.held.map f).sum := by
  have sums := (h.balance.map f).sum_eq
  rw [List.map_append, List.map_append, List.sum_append, List.sum_append] at sums
  exact sums

theorem Exchanged.escrowed (h : Exchanged into out s t) (a : Asset) :
    (out.map (Transfer.worth a)).sum + t.escrowed a =
      (into.map (Transfer.worth a)).sum + s.escrowed a :=
  h.sums (Transfer.worth a)

theorem BooksKept.lockedOf (h : BooksKept s t) (a : Asset) : t.lockedOf a = s.lockedOf a := by
  cases a with
  | native denom => simp only [Store.lockedOf, h.locked]
  | cw20 => rfl

theorem Exchanged.holds (h : Exchanged [] out s t) (books : BooksKept s t) (a : Asset) :
    (out.map (Transfer.worth a)).sum + t.holds a = s.holds a := by
  have sums := h.escrowed a
  rw [List.map_nil, List.sum_nil] at sums
  rw [Store.holds, Store.holds, books.lockedOf]
  omega

theorem EscrowKept.holds (h : EscrowKept s t) (a : Asset) : t.holds a = s.holds a := by
  cases a with
  | native denom => simp only [Store.holds, Store.escrowed, Store.lockedOf, h.held, h.locked]
  | cw20 contract => simp only [Store.holds, Store.escrowed, Store.lockedOf, h.held]

theorem lockedInsert (denom : String) (amount : Amount) (a : Asset) :
    Store.lockedOf { s with locked := s.locked.insert denom amount } a =
      if Asset.native denom = a then amount.val else s.lockedOf a := by
  cases a with
  | cw20 => rfl
  | native d =>
    simp only [Store.lockedOf, SortedMap.getD, SortedMap.getInsert, Asset.native.injEq]
    split <;> rfl

theorem addVal {m n sum : Amount} (h : m.add? n = some sum) : sum.val = m.val + n.val := by
  unfold Amount.add? Amount.ofNat? at h
  split at h
  · cases h
    rfl
  · cases h

theorem addNone {m n : Amount} (h : m.add? n = none) : Amount.size ≤ m.val + n.val := by
  unfold Amount.add? Amount.ofNat? at h
  split at h
  · cases h
  · rename_i large
    exact Nat.le_of_not_lt large

theorem subVal {m n rest : Amount} (h : m.sub? n = some rest) : rest.val + n.val = m.val := by
  unfold Amount.sub? at h
  split at h
  · rename_i enough
    cases h
    exact Nat.sub_add_cancel enough
  · cases h

theorem sumFromVal {amounts : List Amount} {start total : Amount}
    (h : Amount.sumFrom start amounts = some total) :
    total.val = start.val + (amounts.map Amount.val).sum := by
  induction amounts generalizing start with
  | nil =>
    cases h
    simp
  | cons amount rest ih =>
    obtain ⟨next, added, later⟩ := Option.bind_eq_some_iff.1 h
    rw [ih later, addVal added, List.map_cons, List.sum_cons, Nat.add_assoc]

theorem sumFromNone {amounts : List Amount} {start : Amount}
    (h : Amount.sumFrom start amounts = none) :
    Amount.size ≤ start.val + (amounts.map Amount.val).sum := by
  induction amounts generalizing start with
  | nil => cases h
  | cons amount rest ih =>
    rw [List.map_cons, List.sum_cons]
    cases added : start.add? amount with
    | none =>
      have past := addNone added
      omega
    | some next =>
      have past := ih (Option.bind_eq_none_iff.1 h next added)
      have sum := addVal added
      omega

theorem totalsVal {xs : List Transfer} {totals : List Amount}
    (h : xs.mapM Transfer.total? = some totals) :
    totals.map Amount.val = xs.map fun x => x.amount.val + x.fee.val := by
  induction xs generalizing totals with
  | nil =>
    cases h
    rfl
  | cons x rest ih =>
    rw [List.mapM_cons] at h
    obtain ⟨total, here, h⟩ := Option.bind_eq_some_iff.1 h
    obtain ⟨later, found, h⟩ := Option.bind_eq_some_iff.1 h
    cases h
    rw [List.map_cons, List.map_cons, ih found, totalVal here]

theorem totalsNone {xs : List Transfer} (h : xs.mapM Transfer.total? = none) :
    Amount.size ≤ (xs.map fun x => x.amount.val + x.fee.val).sum := by
  induction xs with
  | nil => cases h
  | cons x rest ih =>
    rw [List.mapM_cons] at h
    rw [List.map_cons, List.sum_cons]
    cases here : x.total? with
    | none =>
      have past := addNone here
      omega
    | some total =>
      have later := Option.bind_eq_none_iff.1 h total here
      cases others : rest.mapM Transfer.total? with
      | none =>
        have past := ih others
        omega
      | some totals =>
        have last := Option.bind_eq_none_iff.1 later totals others
        cases last

theorem batchTotal {b : Batch} {total : Amount} (h : b.total? = some total) :
    total.val = b.weight := by
  obtain ⟨totals, found, sum⟩ := Option.bind_eq_some_iff.1 h
  rw [sumFromVal sum, totalsVal found]
  exact Nat.zero_add _

theorem batchTotalNone {b : Batch} (h : b.total? = none) : Amount.size ≤ b.weight := by
  cases found : b.transfers.mapM Transfer.total? with
  | none => exact totalsNone found
  | some totals =>
    have past := sumFromNone (Option.bind_eq_none_iff.1 h totals found)
    rw [totalsVal found] at past
    exact Nat.le_trans past (Nat.le_of_eq (Nat.zero_add _))

theorem sumOfOne {xs : List Transfer} {counts : Transfer → Prop} [DecidablePred counts] {all : Prop}
    [Decidable all] (same : ∀ x ∈ xs, counts x ↔ all) :
    (xs.map fun x => if counts x then x.amount.val + x.fee.val else 0).sum =
      if all then (xs.map fun x => x.amount.val + x.fee.val).sum else 0 := by
  induction xs with
  | nil => simp
  | cons x rest ih =>
    have first := same x (List.mem_cons_self ..)
    rw [List.map_cons, List.sum_cons, ih fun y inside => same y (List.mem_cons_of_mem _ inside)]
    simp only [first]
    split
    · rw [List.map_cons, List.sum_cons]
    · rfl

theorem worthOfOne {batch : Batch} {b : Asset} (same : ∀ x ∈ batch.transfers, x.asset = b) (a : Asset) :
    (batch.transfers.map (Transfer.worth a)).sum = if b = a then batch.weight else 0 :=
  sumOfOne fun x inside => by rw [same x inside]

end TokenBridge
