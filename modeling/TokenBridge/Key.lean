/-!
Keys of ordered tables. `Key.before` is a decidable strict total order; tables list their entries by
it, so the order of every listing is fixed here: numbers by value, byte strings and texts
lexicographically, pairs by their first component.
-/
namespace TokenBridge

class Key (κ : Type) where
  before : κ → κ → Bool
  irrefl : ∀ a, before a a = false
  trans : ∀ {a b c}, before a b = true → before b c = true → before a c = true
  total : ∀ {a b}, before a b = false → before b a = false → a = b

namespace Key

@[reducible] def via {κ ι : Type} [Key ι] (view : κ → ι) (injective : ∀ a b, view a = view b → a = b) : Key κ where
  before a b := before (view a) (view b)
  irrefl a := irrefl (view a)
  trans := trans
  total h h' := injective _ _ (total h h')

instance : Key Nat where
  before a b := Nat.blt a b
  irrefl a := by simp [← Bool.not_eq_true, Nat.blt_eq]
  trans h h' := by simp only [Nat.blt_eq] at *; omega
  total h h' := by
    simp only [← Bool.not_eq_true, Nat.blt_eq] at *
    omega

instance : Key UInt8 := via UInt8.toNat fun _ _ => UInt8.toNat_inj.1
instance : Key UInt64 := via UInt64.toNat fun _ _ => UInt64.toNat_inj.1
instance : Key Char := via Char.toNat fun _ _ => Char.toNat_inj.1

def listBefore {κ : Type} [Key κ] : List κ → List κ → Bool
  | [], [] => false
  | [], _ :: _ => true
  | _ :: _, [] => false
  | a :: as, b :: bs => before a b || (!before b a && listBefore as bs)

theorem listIrrefl {κ : Type} [Key κ] (as : List κ) : listBefore as as = false := by
  induction as with
  | nil => rfl
  | cons a as ih => simp [listBefore, irrefl, ih]

theorem listTotal {κ : Type} [Key κ] {as bs : List κ} (h : listBefore as bs = false)
    (h' : listBefore bs as = false) : as = bs := by
  induction as generalizing bs with
  | nil => cases bs with
    | nil => rfl
    | cons b bs => simp [listBefore] at h
  | cons a as ih => cases bs with
    | nil => simp [listBefore] at h'
    | cons b bs =>
      simp only [listBefore, Bool.or_eq_false_iff, Bool.and_eq_false_iff, Bool.not_eq_false'] at h h'
      have head := total h.1 h'.1
      subst head
      simp only [irrefl, Bool.false_eq_true, false_or, true_and] at h h'
      rw [ih h h']

theorem listTrans {κ : Type} [Key κ] {as bs cs : List κ} (h : listBefore as bs = true)
    (h' : listBefore bs cs = true) : listBefore as cs = true := by
  induction as generalizing bs cs with
  | nil => cases bs with
    | nil => simp [listBefore] at h
    | cons b bs => cases cs with
      | nil => simp [listBefore] at h'
      | cons c cs => rfl
  | cons a as ih => cases bs with
    | nil => simp [listBefore] at h
    | cons b bs => cases cs with
      | nil => simp [listBefore] at h'
      | cons c cs =>
        simp only [listBefore, Bool.or_eq_true, Bool.and_eq_true, Bool.not_eq_true'] at h h' ⊢
        rcases h with h | ⟨ba, h⟩
        · rcases h' with h' | ⟨cb, h'⟩
          · exact .inl (trans h h')
          · cases hbc : before b c with
            | true => exact .inl (trans h hbc)
            | false => rw [← total hbc cb]; exact .inl h
        · rcases h' with h' | ⟨cb, h'⟩
          · cases hab : before a b with
            | true => exact .inl (trans hab h')
            | false => rw [total hab ba]; exact .inl h'
          · cases hac : before a c with
            | true => exact .inl rfl
            | false =>
              refine .inr ⟨?_, ih h h'⟩
              cases hca : before c a with
              | false => rfl
              | true =>
                cases hab : before a b with
                | true => rw [trans hca hab] at cb; exact cb
                | false => rw [← total hab ba, hca] at cb; exact cb

instance {κ : Type} [Key κ] : Key (List κ) where
  before := listBefore
  irrefl := listIrrefl
  trans := listTrans
  total := listTotal

instance : Key String := via String.toList fun _ _ => String.toList_inj.1

def pairBefore {κ ι : Type} [Key κ] [Key ι] (a b : κ × ι) : Bool :=
  before a.1 b.1 || (!before b.1 a.1 && before a.2 b.2)

theorem pairTrans {κ ι : Type} [Key κ] [Key ι] {a b c : κ × ι} (h : pairBefore a b = true)
    (h' : pairBefore b c = true) : pairBefore a c = true := by
  simp only [pairBefore, Bool.or_eq_true, Bool.and_eq_true, Bool.not_eq_true'] at h h' ⊢
  cases hab : before a.1 b.1 with
  | true =>
    cases hbc : before b.1 c.1 with
    | true => exact .inl (trans hab hbc)
    | false =>
      have cb : before c.1 b.1 = false := by simpa [hbc] using (h'.resolve_left (by simp [hbc])).1
      rw [← total hbc cb]; exact .inl hab
  | false =>
    obtain ⟨ba, second⟩ := h.resolve_left (by simp [hab])
    rw [total hab ba]
    rcases h' with h' | ⟨cb, h'⟩
    · exact .inl h'
    · exact .inr ⟨cb, trans second h'⟩

instance {κ ι : Type} [Key κ] [Key ι] : Key (κ × ι) where
  before := pairBefore
  irrefl a := by simp [pairBefore, irrefl]
  trans := pairTrans
  total {a b} h h' := by
    simp only [pairBefore, Bool.or_eq_false_iff, Bool.and_eq_false_iff, Bool.not_eq_false'] at h h'
    have first := total h.1 h'.1
    have second := total (h.2.resolve_left (by simp [h'.1])) (h'.2.resolve_left (by simp [h.1]))
    exact Prod.ext first second

theorem pairBeforeIff {κ ι : Type} [Key κ] [Key ι] {a b : κ × ι} : before a b = true ↔
    before a.1 b.1 = true ∨ a.1 = b.1 ∧ before a.2 b.2 = true := by
  show pairBefore a b = true ↔ _
  simp only [pairBefore, Bool.or_eq_true, Bool.and_eq_true, Bool.not_eq_true']
  constructor
  · rintro (first | ⟨notAfter, second⟩)
    · exact .inl first
    · cases first : before a.1 b.1 with
      | true => exact .inl rfl
      | false => exact .inr ⟨total first notAfter, second⟩
  · rintro (first | ⟨same, second⟩)
    · exact .inl first
    · exact .inr ⟨same ▸ irrefl _, second⟩

end Key

end TokenBridge
