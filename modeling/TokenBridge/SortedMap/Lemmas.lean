import TokenBridge.SortedMap.Basic
/-!
Look-ups after each change of a table, the entries as the graph of the look-up, and extensionality.
-/
namespace TokenBridge.SortedMap

variable {κ α : Type} [Key κ]

theorem findIff {k : κ} {v : α} {entries : List (κ × α)} (h : Ascending entries) :
    find k entries = some v ↔ (k, v) ∈ entries := by
  induction entries with
  | nil => simp [find]
  | cons head rest ih =>
    obtain ⟨k', v'⟩ := head
    obtain ⟨later, sorted⟩ := List.pairwise_cons.1 h
    rw [find]
    split
    · rename_i first
      refine ⟨fun h => by simp at h, fun h => ?_⟩
      rcases List.mem_cons.1 h with h | h
      · cases h; rw [Key.irrefl] at first; exact absurd first (by simp)
      · have := Key.trans first (later _ h)
        rw [Key.irrefl] at this; exact absurd this (by simp)
    · split
      · rename_i next
        rw [ih sorted, List.mem_cons]
        refine ⟨.inr, fun h => h.resolve_left fun same => ?_⟩
        cases same; rw [Key.irrefl] at next; exact absurd next (by simp)
      · rename_i notBefore notAfter
        have same : k = k' := Key.total (by simpa using notBefore) (by simpa using notAfter)
        subst same
        refine ⟨fun h => by cases h; exact List.mem_cons_self .., fun h => ?_⟩
        rcases List.mem_cons.1 h with h | h
        · cases h; rfl
        · have := later _ h
          rw [Key.irrefl] at this; exact absurd this (by simp)

theorem getIff {m : SortedMap κ α} {k : κ} {v : α} :
    m.get? k = some v ↔ (k, v) ∈ m.entries :=
  findIff m.ascending

theorem findPlace (k k' : κ) (v : α) {entries : List (κ × α)} (h : Ascending entries) :
    find k' (place k v entries) =
      if Key.before k k' || Key.before k' k then find k' entries else some v := by
  induction entries with
  | nil =>
    simp only [place, find]
    cases Key.before k k' <;> cases Key.before k' k <;> rfl
  | cons head rest ih =>
    obtain ⟨j, w⟩ := head
    have sorted := (List.pairwise_cons.1 h).2
    rw [place]
    by_cases first : Key.before k j = true
    · rw [if_pos first]
      by_cases above : Key.before k' k = true
      · simp [find, above, Key.trans above first]
      · by_cases below : Key.before k k' = true
        · simp [find, above, below]
        · simp [find, above, below]
    · rw [if_neg first]
      by_cases next : Key.before j k = true
      · rw [if_pos next]
        by_cases atHead : Key.before k' j = true
        · simp [find, atHead, Key.trans atHead next]
        · by_cases past : Key.before j k' = true
          · simp only [find, if_neg atHead, if_pos past]
            exact ih sorted
          · have same : k' = j := Key.total (by simpa using atHead) (by simpa using past)
            subst same
            simp [find, Key.irrefl, next]
      · rw [if_neg next]
        have same : k = j := Key.total (by simpa using first) (by simpa using next)
        subst same
        by_cases above : Key.before k' k = true
        · simp [find, above]
        · by_cases below : Key.before k k' = true
          · simp [find, above, below]
          · simp [find, above, below]

theorem apartIff {k k' : κ} : (Key.before k k' || Key.before k' k) = true ↔ k ≠ k' := by
  constructor
  · rintro h rfl
    simp [Key.irrefl] at h
  · intro h
    cases hb : Key.before k k' with
    | true => rfl
    | false =>
      cases ha : Key.before k' k with
      | true => rfl
      | false => exact absurd (Key.total hb ha) h

@[simp] theorem getInsertSelf (m : SortedMap κ α) (k : κ) (v : α) :
    (m.insert k v).get? k = some v := by
  rw [get?, insert, findPlace k k v m.ascending]
  simp [Key.irrefl]

theorem getInsertOther (m : SortedMap κ α) {k k' : κ} (v : α) (h : k ≠ k') :
    (m.insert k v).get? k' = m.get? k' := by
  rw [get?, insert, findPlace k k' v m.ascending, if_pos (apartIff.2 h), get?]

theorem getInsert [DecidableEq κ] (m : SortedMap κ α) (k k' : κ) (v : α) :
    (m.insert k v).get? k' = if k = k' then some v else m.get? k' := by
  split
  · rename_i same; subst same; simp
  · rename_i apart; exact getInsertOther m v apart

@[simp] theorem getEmpty (k : κ) : (∅ : SortedMap κ α).get? k = none := rfl

theorem getNoneIff {m : SortedMap κ α} {k : κ} :
    m.get? k = none ↔ ∀ v, (k, v) ∉ m.entries := by
  constructor
  · intro h v hv
    rw [getIff.2 hv] at h
    cases h
  · intro h
    cases found : m.get? k with
    | none => rfl
    | some v => exact absurd (getIff.1 found) (h v)

theorem absentIff {m : SortedMap κ α} {k : κ} : m.contains k = false ↔ m.get? k = none := by
  simp [contains]

theorem getFilter (m : SortedMap κ α) (keep : κ → α → Bool) (k : κ) :
    (m.filter keep).get? k = (m.get? k).filter (keep k) := by
  cases found : m.get? k with
  | none =>
    refine getNoneIff.2 fun v hv => ?_
    exact getNoneIff.1 found v (List.mem_filter.1 hv).1
  | some v =>
    have here := getIff.1 found
    cases kept : keep k v with
    | true =>
      rw [Option.filter_some, if_pos kept]
      exact getIff.2 (List.mem_filter.2 ⟨here, kept⟩)
    | false =>
      rw [Option.filter_some, if_neg (by simp [kept])]
      refine getNoneIff.2 fun w hw => ?_
      have again := getIff.2 (List.mem_filter.1 hw).1
      rw [found] at again
      cases again
      exact absurd (List.mem_filter.1 hw).2 (by simp [kept])

@[simp] theorem getEraseSelf (m : SortedMap κ α) (k : κ) : (m.erase k).get? k = none := by
  rw [erase, getFilter]
  cases m.get? k <;> simp [Key.irrefl]

theorem getEraseOther (m : SortedMap κ α) {k k' : κ} (h : k ≠ k') :
    (m.erase k).get? k' = m.get? k' := by
  rw [erase, getFilter]
  cases m.get? k' with
  | none => rfl
  | some v => rw [Option.filter_some, if_pos (apartIff.2 h)]

theorem entriesExt {as bs : List (κ × α)} (ha : Ascending as) (hb : Ascending bs)
    (same : ∀ e, e ∈ as ↔ e ∈ bs) : as = bs := by
  induction as generalizing bs with
  | nil => cases bs with
    | nil => rfl
    | cons b bs => exact absurd ((same b).2 (List.mem_cons_self ..)) (by simp)
  | cons a as ih => cases bs with
    | nil => exact absurd ((same a).1 (List.mem_cons_self ..)) (by simp)
    | cons b bs =>
      obtain ⟨afterA, sortedA⟩ := List.pairwise_cons.1 ha
      obtain ⟨afterB, sortedB⟩ := List.pairwise_cons.1 hb
      have loop {x y : κ × α} (h : Key.before x.1 y.1 = true) (h' : Key.before y.1 x.1 = true) :
          False := by
        have := Key.trans h h'
        simp [Key.irrefl] at this
      have heads : a = b := by
        rcases List.mem_cons.1 ((same a).1 (List.mem_cons_self ..)) with h | h
        · exact h
        · rcases List.mem_cons.1 ((same b).2 (List.mem_cons_self ..)) with h' | h'
          · exact h'.symm
          · exact (loop (afterB a h) (afterA b h')).elim
      subst heads
      refine congrArg (a :: ·) (ih sortedA sortedB fun e => ?_)
      constructor
      · intro he
        refine (List.mem_cons.1 ((same e).1 (List.mem_cons_of_mem _ he))).resolve_left fun h => ?_
        subst h; exact loop (afterA e he) (afterA e he)
      · intro he
        refine (List.mem_cons.1 ((same e).2 (List.mem_cons_of_mem _ he))).resolve_left fun h => ?_
        subst h; exact loop (afterB e he) (afterB e he)

theorem extGet {m m' : SortedMap κ α} (h : ∀ k, m.get? k = m'.get? k) : m = m' := by
  obtain ⟨as, ha⟩ := m
  obtain ⟨bs, hb⟩ := m'
  have same : as = bs := entriesExt ha hb fun e => by
    have := h e.1
    have left : (⟨as, ha⟩ : SortedMap κ α).get? e.1 = some e.2 ↔ e ∈ as := getIff
    have right : (⟨bs, hb⟩ : SortedMap κ α).get? e.1 = some e.2 ↔ e ∈ bs := getIff
    rw [← left, ← right, this]
  subst same
  rfl

end TokenBridge.SortedMap
