import TokenBridge.Proofs.Encoding.Words
/-!
Records read back. No field is a proper beginning of another field of its kind, so a record whose kinds of fields
are known has one reading, and what follows a field begins at one place.
-/
namespace TokenBridge.Encoding

variable {n m : Nat} {xs ys raw raw' : Bytes} {f g : Field} {fs gs : List Field} {tag tag' : String}

inductive Kind where
  | number
  | address
  | octets
  | text
  deriving DecidableEq

def Field.kind : Field → Kind
  | number _ => .number
  | address _ => .address
  | octets _ => .octets
  | text _ => .text

def Field.Fits : Field → Prop
  | number n => n < 256 ^ 32
  | address _ => True
  | octets raw => raw.length < 256 ^ 32
  | text s => (Text.utf8 s).length < 256 ^ 32

theorem wordSplit (fits : n < 256 ^ 32) (fits' : m < 256 ^ 32)
    (same : wordOf n ++ xs = wordOf m ++ ys) : n = m ∧ xs = ys := by
  obtain ⟨front, back⟩ := List.append_inj same (by simp [wordOf, Word.size])
  exact ⟨Word.ofNatInjective fits fits' (Word.ext front), back⟩

theorem addressSplit {a b : Address} (same : a.word.bytes ++ xs = b.word.bytes ++ ys) :
    a = b ∧ xs = ys := by
  obtain ⟨front, back⟩ := List.append_inj same (by simp [Word.size])
  exact ⟨Address.ext (List.append_cancel_left front), back⟩

theorem octetsSplit (fits : raw.length < 256 ^ 32) (fits' : raw'.length < 256 ^ 32)
    (same : octets raw ++ xs = octets raw' ++ ys) : raw = raw' ∧ xs = ys := by
  simp only [octets, List.append_assoc] at same
  obtain ⟨count, same⟩ := wordSplit fits fits' same
  obtain ⟨content, same⟩ := List.append_inj same count
  rw [count] at same
  exact ⟨content, List.append_cancel_left same⟩

theorem fieldSplit (fits : f.Fits) (fits' : g.Fits) (kinds : f.kind = g.kind)
    (same : f.encode ++ xs = g.encode ++ ys) : f = g ∧ xs = ys := by
  cases f with
  | number n =>
    cases g with
    | number m =>
      obtain ⟨rfl, back⟩ := wordSplit fits fits' same
      exact ⟨rfl, back⟩
    | address | octets | text => cases kinds
  | address a =>
    cases g with
    | address b =>
      obtain ⟨rfl, back⟩ := addressSplit same
      exact ⟨rfl, back⟩
    | number | octets | text => cases kinds
  | octets raw =>
    cases g with
    | octets raw' =>
      obtain ⟨rfl, back⟩ := octetsSplit fits fits' same
      exact ⟨rfl, back⟩
    | number | address | text => cases kinds
  | text s =>
    cases g with
    | text t =>
      obtain ⟨bytes, back⟩ := octetsSplit fits fits' same
      exact ⟨congrArg Field.text (Text.utf8Injective bytes), back⟩
    | number | address | octets => cases kinds

theorem fieldsSplit (fits : ∀ f ∈ fs, f.Fits) (fits' : ∀ g ∈ gs, g.Fits)
    (kinds : fs.map Field.kind = gs.map Field.kind)
    (same : fs.flatMap Field.encode ++ xs = gs.flatMap Field.encode ++ ys) : fs = gs ∧ xs = ys := by
  induction fs generalizing gs with
  | nil =>
    cases gs with
    | nil => exact ⟨rfl, same⟩
    | cons => cases kinds
  | cons f fs ih =>
    cases gs with
    | nil => cases kinds
    | cons g gs =>
      obtain ⟨first, others⟩ := List.cons.inj kinds
      simp only [List.flatMap_cons, List.append_assoc] at same
      obtain ⟨rfl, rest⟩ := fieldSplit (fits f (List.mem_cons_self ..)) (fits' g (List.mem_cons_self ..))
        first same
      obtain ⟨rfl, back⟩ := ih (fun f inside => fits f (List.mem_cons_of_mem _ inside))
        (fun g inside => fits' g (List.mem_cons_of_mem _ inside)) others rest
      exact ⟨rfl, back⟩

theorem recordSplit (fits : (Text.utf8 tag).length < 256 ^ 32) (fits' : (Text.utf8 tag').length < 256 ^ 32)
    (same : record tag fs = record tag' gs) :
    tag = tag' ∧ fs.flatMap Field.encode = gs.flatMap Field.encode := by
  obtain ⟨tags, fields⟩ := octetsSplit fits fits' same
  exact ⟨Text.utf8Injective tags, fields⟩

end TokenBridge.Encoding
