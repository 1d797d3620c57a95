import TokenBridge.Proofs.Outcome.Basic
/-!
How an action halts. `Halts x s halt t` opens along `do` blocks as `Yields` does, and of the two every action
does exactly one.
-/
namespace TokenBridge.Action

variable {α β : Type} {s t u : Store} {halt : Halt}

/-- Carried out in the store `s`, the action halts, and leaves the store `t` to whoever runs it. -/
def Halts (x : Action α) (s : Store) (halt : Halt) (t : Store) : Prop :=
  @Eq (Except Halt α × Store) (x.run s) (.error halt, t)

theorem yieldsOrHalts (x : Action α) (s : Store) :
    (∃ a t, Yields x s a t) ∨ ∃ halt t, Halts x s halt t := by
  cases outcome : x.run s with
  | mk result t =>
    cases result with
    | ok a => exact .inl ⟨a, t, outcome⟩
    | error halt => exact .inr ⟨halt, t, outcome⟩

theorem Yields.unhalted {x : Action α} {a : α} (h : Yields x s a t) : ¬ Halts x s halt u := by
  intro halts
  unfold Halts at halts
  rw [h] at halts
  cases halts

theorem Yields.alone {x : Action α} {a b : α} (h : Yields x s a t) (h' : Yields x s b u) :
    a = b ∧ t = u := by
  cases h.symm.trans h'
  exact ⟨rfl, rfl⟩

@[simp] theorem haltsBind {x : Action α} {f : α → Action β} :
    Halts (x >>= f) s halt t ↔
      Halts x s halt t ∨ ∃ a u, Yields x s a u ∧ Halts (f a) u halt t := by
  unfold Halts
  rw [runBind]
  constructor
  · intro h
    split at h
    · rename_i a u hx
      exact .inr ⟨a, u, hx, h⟩
    · rename_i stopped u hx
      cases h
      exact .inl hx
  · rintro (hx | ⟨a, u, hx, hf⟩)
    · rw [hx]
    · rw [hx]
      exact hf

@[simp] theorem haltsPure {a : α} : ¬ Halts (pure a) s halt t := (yieldsPure.2 ⟨rfl, rfl⟩).unhalted

@[simp] theorem haltsMap {x : Action α} {f : α → β} :
    Halts (f <$> x) s halt t ↔ Halts x s halt t := by
  rw [map_eq_pure_bind, haltsBind]
  exact ⟨fun h => h.resolve_right fun ⟨_, _, _, last⟩ => haltsPure last, .inl⟩

@[simp] theorem haltsGet : ¬ Halts get s halt t := (yieldsGet.2 ⟨rfl, rfl⟩).unhalted

@[simp] theorem haltsSet {v : Store} : ¬ Halts (set v) s halt t := by
  have yields : Yields (set v) s ⟨⟩ v := yieldsSet.2 rfl
  exact yields.unhalted

@[simp] theorem haltsModify {f : Store → Store} : ¬ Halts (modify f) s halt t := by
  have yields : Yields (modify f) s ⟨⟩ (f s) := yieldsModify.2 rfl
  exact yields.unhalted

@[simp] theorem haltsThrow {why : Halt} :
    Halts (throw why : Action α) s halt t ↔ halt = why ∧ t = s := by
  show @Eq (Except Halt α × Store) (.error why, s) (.error halt, t) ↔ _
  simp only [Prod.mk.injEq, Except.error.injEq, eq_comm]

@[simp] theorem haltsRequire {condition : Bool} {why : Refusal} :
    Halts (require condition why) s halt t ↔ condition = false ∧ halt = .refused why ∧ t = s := by
  cases condition <;> simp [require, refuse]

@[simp] theorem haltsSomeOr {o : Option α} {why : Refusal} :
    Halts (someOr why o) s halt t ↔ o = none ∧ halt = .refused why ∧ t = s := by
  cases o <;> simp [someOr, refuse]

@[simp] theorem haltsInRange {o : Option α} :
    Halts (inRange o) s halt t ↔ o = none ∧ halt = .overflow ∧ t = s := by
  cases o <;> simp [inRange]

@[simp] theorem haltsOfExcept {e : Except Halt α} :
    Halts (ofExcept e) s halt t ↔ e = .error halt ∧ t = s := by
  cases e <;> simp [ofExcept, eq_comm]

@[simp] theorem haltsAccount {name : String} :
    Halts (account name) s halt t ↔
      ∃ fault, Account.validate name = .error fault ∧ halt = .refused (.badAccount fault) ∧ t = s := by
  unfold account
  cases Account.validate name <;> simp [refuse]

@[simp] theorem haltsForMCons {f : α → Action PUnit} {a : α} {rest : List α} :
    Halts (forM (a :: rest) f) s halt t ↔
      Halts (f a) s halt t ∨ ∃ v, Yields (f a) s ⟨⟩ v ∧ Halts (forM rest f) v halt t := by
  rw [List.forM_cons, haltsBind]
  exact or_congr_right ⟨fun ⟨_, v, first, later⟩ => ⟨v, first, later⟩,
    fun ⟨v, first, later⟩ => ⟨⟨⟩, v, first, later⟩⟩

theorem haltedIff {x : Action α} :
    x.commit s = (.error halt, t) ↔ t = s ∧ ∃ u, Halts x s halt u := by
  unfold commit Halts
  split
  · rename_i a after found
    rw [found]
    simp
  · rename_i stopped after found
    rw [found]
    simp only [Prod.mk.injEq, Except.error.injEq]
    constructor
    · rintro ⟨rfl, rfl⟩
      exact ⟨rfl, after, rfl, rfl⟩
    · rintro ⟨rfl, _, rfl, _⟩
      exact ⟨rfl, rfl⟩

end TokenBridge.Action
