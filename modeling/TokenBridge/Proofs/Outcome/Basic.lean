import TokenBridge.Chain
/-!
What an action that succeeds has read and written. `Yields x s a t` opens along `do` blocks, so each
handler is described once, by the checks it passed and the store it left.
-/
namespace TokenBridge

namespace Counter

theorem nextVal {n m : UInt64} (h : next? n = some m) : m.toNat = n.toNat + 1 := by
  unfold next? at h
  split at h
  · rename_i fits
    cases h
    exact UInt64.toNat_ofNat_of_lt' fits
  · cases h

theorem nextIff {n m : UInt64} : next? n = some m ↔ m.toNat = n.toNat + 1 := by
  refine ⟨nextVal, fun same => ?_⟩
  have fits := m.toNat_lt
  unfold next?
  rw [if_pos (by rw [← same]; exact fits), ← same, UInt64.ofNat_toNat]

theorem nextRoom {n : UInt64} (room : n.toNat < UInt64.size - 1) : ∃ m, next? n = some m :=
  ⟨_, if_pos (by omega)⟩

theorem addVal {m n sum : UInt64} (h : add? m n = some sum) : sum.toNat = m.toNat + n.toNat := by
  unfold add? at h
  split at h
  · rename_i fits
    cases h
    exact UInt64.toNat_ofNat_of_lt' fits
  · cases h

theorem largerVal (m n : UInt64) : (larger m n).toNat = max m.toNat n.toNat := by
  unfold larger
  split
  · rename_i below
    rw [Nat.blt_eq] at below
    omega
  · rename_i notBelow
    rw [Nat.blt_eq] at notBelow
    omega

end Counter

namespace Action

variable {α β : Type} {s t : Store}

/-- Carried out in the store `s`, the action succeeds with `a` and leaves the store `t`. -/
def Yields (x : Action α) (s : Store) (a : α) (t : Store) : Prop :=
  @Eq (Except Halt α × Store) (x.run s) (.ok a, t)

theorem runBind (x : Action α) (f : α → Action β) (s : Store) :
    @Eq (Except Halt β × Store) ((x >>= f).run s) (match x.run s with
      | (.ok a, u) => (f a).run u
      | (.error halt, u) => (.error halt, u)) := by
  show (ExceptT.bind x f).run s = _
  unfold ExceptT.bind ExceptT.run ExceptT.mk
  show StateT.bind x _ s = _
  unfold StateT.bind
  show (match x s with | (outcome, u) => _) = _
  cases x s with
  | mk outcome u => cases outcome <;> rfl

@[simp] theorem yieldsBind {x : Action α} {f : α → Action β} {b : β} :
    Yields (x >>= f) s b t ↔ ∃ a u, Yields x s a u ∧ Yields (f a) u b t := by
  unfold Yields
  rw [runBind]
  constructor
  · intro h
    split at h
    · rename_i a u hx
      exact ⟨a, u, hx, h⟩
    · cases h
  · rintro ⟨a, u, hx, hf⟩
    rw [hx]
    exact hf

@[simp] theorem yieldsPure {a b : α} : Yields (pure a) s b t ↔ b = a ∧ t = s := by
  show @Eq (Except Halt α × Store) (.ok a, s) (.ok b, t) ↔ _
  simp only [Prod.mk.injEq, Except.ok.injEq, eq_comm]

@[simp] theorem yieldsMap {x : Action α} {f : α → β} {b : β} :
    Yields (f <$> x) s b t ↔ ∃ a, Yields x s a t ∧ b = f a := by
  rw [map_eq_pure_bind, yieldsBind]
  constructor
  · rintro ⟨a, u, hx, last⟩
    obtain ⟨rfl, rfl⟩ := yieldsPure.1 last
    exact ⟨a, hx, rfl⟩
  · rintro ⟨a, hx, rfl⟩
    exact ⟨a, t, hx, yieldsPure.2 ⟨rfl, rfl⟩⟩

@[simp] theorem yieldsThrow {a : α} {halt : Halt} : ¬ Yields (throw halt) s a t := by
  show ¬ @Eq (Except Halt α × Store) (.error halt, s) (.ok a, t)
  simp

@[simp] theorem yieldsRefuse {a : α} {why : Refusal} : ¬ Yields (refuse why) s a t := yieldsThrow

@[simp] theorem yieldsGet {a : Store} : Yields get s a t ↔ a = s ∧ t = s := by
  show @Eq (Except Halt Store × Store) (.ok s, s) (.ok a, t) ↔ _
  simp only [Prod.mk.injEq, Except.ok.injEq, eq_comm]

@[simp] theorem yieldsSet {v : Store} {u : PUnit} : Yields (set v) s u t ↔ t = v := by
  show @Eq (Except Halt PUnit × Store) (.ok ⟨⟩, v) (.ok u, t) ↔ _
  simp only [Prod.mk.injEq, true_and, eq_comm]

@[simp] theorem yieldsModify {f : Store → Store} {u : PUnit} :
    Yields (modify f) s u t ↔ t = f s := by
  show @Eq (Except Halt PUnit × Store) (.ok ⟨⟩, f s) (.ok u, t) ↔ _
  simp only [Prod.mk.injEq, true_and, eq_comm]

@[simp] theorem yieldsRequire {condition : Bool} {why : Refusal} {u : Unit} :
    Yields (require condition why) s u t ↔ condition = true ∧ t = s := by
  cases condition <;> simp [require]

@[simp] theorem yieldsRefuseIf {fault : Option Refusal} {u : Unit} :
    Yields (refuseIf fault) s u t ↔ fault = none ∧ t = s := by
  cases fault <;> simp [refuseIf]

@[simp] theorem yieldsSomeOr {o : Option α} {why : Refusal} {a : α} :
    Yields (someOr why o) s a t ↔ o = some a ∧ t = s := by
  cases o <;> simp [someOr, eq_comm]

@[simp] theorem yieldsInRange {o : Option α} {a : α} :
    Yields (inRange o) s a t ↔ o = some a ∧ t = s := by
  cases o <;> simp [inRange, eq_comm]

@[simp] theorem yieldsOfExcept {e : Except Halt α} {a : α} :
    Yields (ofExcept e) s a t ↔ e = .ok a ∧ t = s := by
  cases e <;> simp [ofExcept, eq_comm]

@[simp] theorem yieldsAccount {name : String} {a : Account} :
    Yields (account name) s a t ↔ Account.validate name = .ok a ∧ t = s := by
  unfold account
  cases Account.validate name <;> simp [eq_comm]

@[simp] theorem yieldsAddress {written : String} {a : Address} :
    Yields (address written) s a t ↔ Address.parse written = .ok a ∧ t = s := by
  unfold address
  cases Address.parse written <;> simp [eq_comm]

@[simp] theorem yieldsConfig {c : Config} : Yields config s c t ↔ s.config = some c ∧ t = s := by
  simp only [config, yieldsBind, yieldsGet, yieldsSomeOr]
  constructor
  · rintro ⟨_, _, ⟨rfl, rfl⟩, found, rfl⟩
    exact ⟨found, rfl⟩
  · rintro ⟨found, rfl⟩
    exact ⟨t, t, ⟨rfl, rfl⟩, found, rfl⟩

@[simp] theorem yieldsConfigFor {caller : Caller} {c : Config} :
    Yields (configFor caller) s c t ↔ s.config = some c ∧ caller.sender = c.admin ∧ t = s := by
  simp only [configFor, yieldsBind, yieldsConfig, yieldsRequire, yieldsPure, decide_eq_true_eq]
  constructor
  · rintro ⟨c', _, ⟨found, rfl⟩, _, _, ⟨admin, rfl⟩, rfl, rfl⟩
    exact ⟨found, admin, rfl⟩
  · rintro ⟨found, admin, rfl⟩
    exact ⟨c, t, ⟨found, rfl⟩, (), t, ⟨admin, rfl⟩, rfl, rfl⟩

@[simp] theorem yieldsSetConfig {c : Config} {u : PUnit} :
    Yields (setConfig c) s u t ↔ t = { s with config := some c } := yieldsModify

@[simp] theorem yieldsForMNil {f : α → Action PUnit} {u : PUnit} :
    Yields (forM ([] : List α) f) s u t ↔ t = s := by
  simp

@[simp] theorem yieldsForMCons {f : α → Action PUnit} {a : α} {rest : List α} {u : PUnit} :
    Yields (forM (a :: rest) f) s u t ↔
      ∃ v, Yields (f a) s ⟨⟩ v ∧ Yields (forM rest f) v ⟨⟩ t := by
  rw [List.forM_cons, yieldsBind]
  exact ⟨fun ⟨_, v, first, later⟩ => ⟨v, first, later⟩,
    fun ⟨v, first, later⟩ => ⟨⟨⟩, v, first, later⟩⟩

theorem forMKeeps {P : Store → Prop} {f : α → Action PUnit} {xs : List α} {u : PUnit}
    (h : Yields (forM xs f) s u t) (start : P s)
    (round : ∀ x ∈ xs, ∀ v w, P v → Yields (f x) v ⟨⟩ w → P w) : P t := by
  induction xs generalizing s with
  | nil =>
    have same : t = s := yieldsForMNil.1 h
    exact same ▸ start
  | cons x rest ih =>
    obtain ⟨v, first, later⟩ := yieldsForMCons.1 h
    exact ih later (round x (List.mem_cons_self ..) s v start first)
      fun y hy => round y (List.mem_cons_of_mem _ hy)

@[simp] theorem yieldsForMOption {f : α → Action PUnit} {o : Option α} {u : PUnit} :
    Yields (forM o f) s u t ↔ match o with
      | none => t = s
      | some a => Yields (f a) s ⟨⟩ t := by
  cases o <;> simp

theorem yieldsMapM {f : α → Action β} {g : α → Option β} {xs : List α} {ys : List β}
    (reads : ∀ x b u v, Yields (f x) u b v ↔ g x = some b ∧ v = u) :
    Yields (xs.mapM f) s ys t ↔ xs.map g = ys.map some ∧ t = s := by
  induction xs generalizing s t ys with
  | nil => cases ys <;> simp
  | cons x rest ih =>
    rw [List.mapM_cons]
    simp only [yieldsBind, yieldsPure, reads, ih]
    constructor
    · rintro ⟨b, _, ⟨head, rfl⟩, bs, _, ⟨tail, rfl⟩, rfl, rfl⟩
      exact ⟨by simp [head, tail], rfl⟩
    · rintro ⟨both, rfl⟩
      cases ys with
      | nil => simp at both
      | cons b bs =>
        obtain ⟨head, tail⟩ := List.cons.inj both
        exact ⟨b, t, ⟨head, rfl⟩, bs, t, ⟨tail, rfl⟩, rfl, rfl⟩

theorem committed {x : Action α} {a : α} :
    x.commit s = (.ok a, t) ↔ Yields x s a t := by
  unfold commit Yields
  split
  · rename_i b after found
    rw [found]
  · rename_i halt after found
    rw [found]
    simp

theorem commitOk {x : Action α} (done : (x.commit s).1.isOk = true) : ∃ a t, Yields x s a t := by
  cases outcome : x.commit s with
  | mk result t =>
    cases result with
    | ok a => exact ⟨a, t, committed.1 outcome⟩
    | error halt =>
      rw [outcome] at done
      cases done

theorem halted {x : Action α} {halt : Halt} (h : x.commit s = (.error halt, t)) : t = s := by
  unfold commit at h
  split at h
  · simp at h
  · simp only [Prod.mk.injEq] at h
    exact h.2.symm

end Action

end TokenBridge
