import TokenBridge.Key
/-!
Tables with one value per key, listed in ascending key order. The order is part of the type, so two
tables with the same look-ups are the same table (`SortedMap.extGet`, in the module of lemmas).
-/
namespace TokenBridge

def Ascending {κ α : Type} [Key κ] (entries : List (κ × α)) : Prop :=
  entries.Pairwise fun a b => Key.before a.1 b.1 = true

structure SortedMap (κ α : Type) [Key κ] where
  entries : List (κ × α)
  ascending : Ascending entries

namespace SortedMap

variable {κ α : Type} [Key κ]

def empty : SortedMap κ α := ⟨[], List.Pairwise.nil⟩

instance : EmptyCollection (SortedMap κ α) := ⟨empty⟩
instance : Inhabited (SortedMap κ α) := ⟨empty⟩

instance [DecidableEq κ] [DecidableEq α] : DecidableEq (SortedMap κ α) := fun a b =>
  if h : a.entries = b.entries then
    isTrue (by cases a; cases b; simp_all)
  else
    isFalse fun same => h (by rw [same])

def find (k : κ) : List (κ × α) → Option α
  | [] => none
  | (k', v) :: rest =>
    if Key.before k k' then none
    else if Key.before k' k then find k rest
    else some v

def get? (m : SortedMap κ α) (k : κ) : Option α := find k m.entries

def contains (m : SortedMap κ α) (k : κ) : Bool := (m.get? k).isSome

def getD (m : SortedMap κ α) (k : κ) (default : α) : α := (m.get? k).getD default

def place (k : κ) (v : α) : List (κ × α) → List (κ × α)
  | [] => [(k, v)]
  | (k', v') :: rest =>
    if Key.before k k' then (k, v) :: (k', v') :: rest
    else if Key.before k' k then (k', v') :: place k v rest
    else (k, v) :: rest

theorem memPlace {k : κ} {v : α} {e : κ × α} {entries : List (κ × α)}
    (h : e ∈ place k v entries) : e = (k, v) ∨ e ∈ entries := by
  induction entries with
  | nil => exact .inl (by simpa [place] using h)
  | cons head rest ih =>
    obtain ⟨k', v'⟩ := head
    rw [place] at h
    split at h
    · simpa using h
    · split at h
      · rcases List.mem_cons.1 h with h | h
        · exact .inr (h ▸ List.mem_cons_self ..)
        · exact (ih h).imp_right (List.mem_cons_of_mem _)
      · rcases List.mem_cons.1 h with h | h
        · exact .inl h
        · exact .inr (List.mem_cons_of_mem _ h)

theorem ascendingPlace (k : κ) (v : α) {entries : List (κ × α)} (h : Ascending entries) :
    Ascending (place k v entries) := by
  induction entries with
  | nil => exact List.pairwise_singleton ..
  | cons head rest ih =>
    obtain ⟨k', v'⟩ := head
    have later := (List.pairwise_cons.1 h).1
    rw [place]
    split
    · rename_i first
      refine List.pairwise_cons.2 ⟨fun e he => ?_, h⟩
      rcases List.mem_cons.1 he with he | he
      · exact he ▸ first
      · exact Key.trans first (later e he)
    · split
      · rename_i next
        refine List.pairwise_cons.2 ⟨fun e he => ?_, ih (List.pairwise_cons.1 h).2⟩
        rcases memPlace he with he | he
        · exact he ▸ next
        · exact later e he
      · rename_i notBefore notAfter
        have same : k' = k := Key.total (by simpa using notAfter) (by simpa using notBefore)
        refine List.pairwise_cons.2 ⟨fun e he => same ▸ later e he, (List.pairwise_cons.1 h).2⟩

def insert (m : SortedMap κ α) (k : κ) (v : α) : SortedMap κ α :=
  ⟨place k v m.entries, ascendingPlace k v m.ascending⟩

def filter (m : SortedMap κ α) (keep : κ → α → Bool) : SortedMap κ α :=
  ⟨m.entries.filter fun e => keep e.1 e.2, m.ascending.filter _⟩

def erase (m : SortedMap κ α) (k : κ) : SortedMap κ α :=
  m.filter fun k' _ => Key.before k k' || Key.before k' k

def keys (m : SortedMap κ α) : List κ := m.entries.map Prod.fst

def values (m : SortedMap κ α) : List α := m.entries.map Prod.snd

end SortedMap

end TokenBridge
