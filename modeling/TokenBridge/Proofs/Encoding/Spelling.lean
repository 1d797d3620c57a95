import TokenBridge.Action
import TokenBridge.Proofs.Encoding.Addresses
/-!
Which texts spell an address, and which one. Forty digits of either case do, alone or behind one marker, and no other
text, whatever characters it has: what is left of a text without its marker is looked at byte by byte, and no byte of a
longer character is a digit. An address is written in one of its spellings, and written addresses are in the order of
the addresses.
-/
namespace TokenBridge

namespace Text.Hex

def alphabet : List Char :=
  ['0', '1', '2', '3', '4', '5', '6', '7', '8', '9', 'a', 'b', 'c', 'd', 'e', 'f', 'A', 'B', 'C', 'D', 'E', 'F']

def value (c : Char) : Nat := alphabet.idxOf c.toLower

def pairs : List Char → Bytes
  | [] => []
  | [_] => []
  | high :: low :: rest => UInt8.ofNat (16 * value high + value low) :: pairs rest

variable {c : Char} {b n : UInt8} {cs : List Char} {raw bytes : Bytes} {position : Nat}

theorem valueSmall (digit : c ∈ alphabet) : value c < 16 := by
  have listed : alphabet.all (value · < 16) = true := by decide
  exact of_decide_eq_true (List.all_eq_true.1 listed c digit)

theorem digitValue (digit : c ∈ alphabet) : Hex.digit (value c) = c.toLower := by
  have listed : alphabet.all (fun c => Hex.digit (value c) = c.toLower) = true := by decide
  exact of_decide_eq_true (List.all_eq_true.1 listed c digit)

theorem alphabetByte (digit : c ∈ alphabet) :
    ∃ b, String.utf8EncodeChar c = [b] ∧ nibble? b = some (UInt8.ofNat (value c)) := by
  have listed : alphabet.all (fun c =>
      (String.utf8EncodeChar c).map nibble? = [some (UInt8.ofNat (value c))]) = true := by decide
  have read := of_decide_eq_true (List.all_eq_true.1 listed c digit)
  obtain ⟨b, _, encoded, here, none⟩ := List.map_eq_cons_iff.1 read
  rw [List.map_eq_nil_iff.1 none] at encoded
  exact ⟨b, encoded, here⟩

theorem byteDigit (read : nibble? b = some n) : ∃ c ∈ alphabet, String.utf8EncodeChar c = [b] := by
  have listed : ∀ k < 256, (nibble? (UInt8.ofNat k)).isSome = true →
      alphabet.any (String.utf8EncodeChar · = [UInt8.ofNat k]) = true := by decide +kernel
  have known := listed b.toNat b.toNat_lt
  rw [UInt8.ofNat_toNat, read] at known
  obtain ⟨c, digit, encoded⟩ := List.any_eq_true.1 (known rfl)
  exact ⟨c, digit, of_decide_eq_true encoded⟩

theorem utf8Cons (digit : c ∈ alphabet) (cs : List Char) : ∃ b,
    utf8 (String.ofList (c :: cs)) = b :: utf8 (String.ofList cs) ∧ nibble? b = some (UInt8.ofNat (value c)) := by
  obtain ⟨b, encoded, read⟩ := alphabetByte digit
  refine ⟨b, ?_, read⟩
  rw [utf8OfList, utf8OfList, List.flatMap_cons, encoded]
  rfl

theorem utf8Digits (digits : ∀ c ∈ cs, c ∈ alphabet) :
    (utf8 (String.ofList cs)).length = cs.length ∧ ∀ b ∈ utf8 (String.ofList cs), (nibble? b).isSome = true := by
  induction cs with
  | nil => exact ⟨rfl, fun b none => nomatch none⟩
  | cons c rest ih =>
    obtain ⟨first, later⟩ := List.forall_mem_cons.1 digits
    obtain ⟨b, encoded, read⟩ := utf8Cons first rest
    obtain ⟨count, all⟩ := ih later
    rw [encoded, List.length_cons, List.length_cons, count]
    exact ⟨rfl, List.forall_mem_cons.2 ⟨read ▸ rfl, all⟩⟩

theorem digitsOfBytes (all : ∀ b ∈ raw, (nibble? b).isSome = true) :
    ∃ cs, (∀ c ∈ cs, c ∈ alphabet) ∧ utf8 (String.ofList cs) = raw := by
  induction raw with
  | nil => exact ⟨[], List.forall_mem_nil _, rfl⟩
  | cons b rest ih =>
    obtain ⟨first, later⟩ := List.forall_mem_cons.1 all
    obtain ⟨n, read⟩ := Option.isSome_iff_exists.1 first
    obtain ⟨c, digit, encoded⟩ := byteDigit read
    obtain ⟨cs, digits, same⟩ := ih later
    refine ⟨c :: cs, List.forall_mem_cons.2 ⟨digit, digits⟩, ?_⟩
    rw [utf8OfList, List.flatMap_cons, encoded, ← utf8OfList, same]
    rfl

theorem pairVal {high low : Char} (first : high ∈ alphabet) (second : low ∈ alphabet) :
    (UInt8.ofNat (16 * value high + value low)).toNat = 16 * value high + value low := by
  have small := valueSmall first
  have small' := valueSmall second
  have size : UInt8.size = 256 := rfl
  exact UInt8.toNat_ofNat_of_lt' (by omega)

theorem readPairs (digits : ∀ c ∈ cs, c ∈ alphabet) (position : Nat) :
    readFrom position (utf8 (String.ofList cs)) = .ok (pairs cs) := by
  induction cs using pairs.induct generalizing position with
  | case1 => rfl
  | case2 c =>
    obtain ⟨b, encoded, _⟩ := utf8Cons (digits c (List.mem_cons_self ..)) []
    rw [encoded]
    rfl
  | case3 high low rest ih =>
    obtain ⟨first, others⟩ := List.forall_mem_cons.1 digits
    obtain ⟨second, later⟩ := List.forall_mem_cons.1 others
    obtain ⟨h, encoded, highest⟩ := utf8Cons first (low :: rest)
    obtain ⟨l, encoded', lowest⟩ := utf8Cons second rest
    have whole : 16 * UInt8.ofNat (value high) + UInt8.ofNat (value low) =
        UInt8.ofNat (16 * value high + value low) := by
      simp only [UInt8.ofNat_add, UInt8.ofNat_mul]
      rfl
    rw [encoded, encoded']
    simp only [readFrom, nibbleAt, highest, lowest, ih later, bind, Except.bind, pure, Except.pure, whole, pairs]

theorem readDigits : ∀ {position : Nat} {raw bytes : Bytes}, raw.length % 2 = 0 →
    readFrom position raw = .ok bytes → ∀ b ∈ raw, (nibble? b).isSome = true
  | _, [], _, _, _ => fun _ none => nomatch none
  | _, [_], _, even, _ => absurd even Nat.one_ne_zero
  | position, high :: low :: rest, bytes, even, read => by
    simp only [readFrom, nibbleAt, bind, Except.bind] at read
    cases highest : nibble? high with
    | none => simp [highest] at read
    | some h =>
      cases lowest : nibble? low with
      | none => simp [highest, lowest] at read
      | some l =>
        simp only [highest, lowest] at read
        split at read
        · cases read
        · rename_i tail found
          have later := readDigits (by rw [← even, List.length_cons, List.length_cons]; omega) found
          have first : (nibble? high).isSome = true := by rw [highest]; rfl
          have second : (nibble? low).isSome = true := by rw [lowest]; rfl
          exact List.forall_mem_cons.2 ⟨first, List.forall_mem_cons.2 ⟨second, later⟩⟩

theorem writePairs (digits : ∀ c ∈ cs, c ∈ alphabet) (even : cs.length % 2 = 0) :
    write (pairs cs) = cs.map Char.toLower := by
  induction cs using pairs.induct with
  | case1 => rfl
  | case2 => exact absurd even Nat.one_ne_zero
  | case3 high low rest ih =>
    obtain ⟨first, others⟩ := List.forall_mem_cons.1 digits
    obtain ⟨second, later⟩ := List.forall_mem_cons.1 others
    have small := valueSmall second
    have quotient : (16 * value high + value low) / 16 = value high := by omega
    have remainder : (16 * value high + value low) % 16 = value low := by omega
    have rests := ih later (by rw [← even, List.length_cons, List.length_cons]; omega)
    simp only [pairs, write, pairVal first second, quotient, remainder, digitValue first, digitValue second, rests,
      List.map_cons]

theorem digitOrder {k l : Nat} (small : k < 16) (small' : l < 16) :
    ∃ b b', String.utf8EncodeChar (Hex.digit k) = [b] ∧ String.utf8EncodeChar (Hex.digit l) = [b'] ∧
      (Key.before b b' = true ↔ k < l) ∧ (Key.before b' b = true ↔ l < k) := by
  have listed : ∀ k < 16, ∀ l < 16, ∃ b ∈ (String.utf8EncodeChar (Hex.digit k)).head?,
      ∃ b' ∈ (String.utf8EncodeChar (Hex.digit l)).head?,
        (Key.before b b' = true ↔ k < l) ∧ (Key.before b' b = true ↔ l < k) := by decide +kernel
  obtain ⟨b, encoded, _⟩ := digitByte small
  obtain ⟨b', encoded', _⟩ := digitByte small'
  obtain ⟨_, first, _, second, order⟩ := listed k small l small'
  rw [encoded] at first
  rw [encoded'] at second
  cases first
  cases second
  exact ⟨b, b', encoded, encoded', order⟩

theorem byteOrder {x y : UInt8} : Key.before x y = true ↔ x.toNat < y.toNat := (Nat.blt_eq ..).to_iff

theorem writeHalves {x h l : UInt8} {xs : Bytes} (high : String.utf8EncodeChar (Hex.digit (x.toNat / 16)) = [h])
    (low : String.utf8EncodeChar (Hex.digit (x.toNat % 16)) = [l]) :
    utf8 (String.ofList (write (x :: xs))) = h :: l :: utf8 (String.ofList (write xs)) := by
  rw [utf8OfList, write, List.flatMap_cons, List.flatMap_cons, high, low, ← utf8OfList]
  rfl

theorem writtenOrder (xs ys : Bytes) :
    Key.before (utf8 (String.ofList (write xs))) (utf8 (String.ofList (write ys))) = Key.before xs ys := by
  induction xs generalizing ys with
  | nil =>
    cases ys with
    | nil => rfl
    | cons y ys =>
      obtain ⟨_, _, digits, _⟩ := writeByte y ys
      rw [digits]
      rfl
  | cons x xs ih =>
    cases ys with
    | nil =>
      obtain ⟨_, _, digits, _⟩ := writeByte x xs
      rw [digits]
      rfl
    | cons y ys =>
      have bound := x.toNat_lt
      have bound' := y.toNat_lt
      obtain ⟨h, h', high, high', first, first'⟩ :=
        digitOrder (k := x.toNat / 16) (l := y.toNat / 16) (by omega) (by omega)
      obtain ⟨l, l', low, low', second, second'⟩ :=
        digitOrder (k := x.toNat % 16) (l := y.toNat % 16) (by omega) (by omega)
      have rests := ih ys
      rw [writeHalves high low, writeHalves high' low']
      show (Key.before h h' || (!Key.before h' h && (Key.before l l' || (!Key.before l' l &&
          Key.before (utf8 (String.ofList (write xs))) (utf8 (String.ofList (write ys))))))) =
        (Key.before x y || (!Key.before y x && Key.before xs ys))
      -- Unequal halves decide in the same way as the bytes, and of equal bytes both halves are equal.
      rw [rests, Bool.eq_iff_iff]
      simp only [Bool.or_eq_true, Bool.and_eq_true, Bool.not_eq_true', ← Bool.not_eq_true, first, first', second,
        second', byteOrder]
      cases Key.before xs ys with
      | true =>
        simp only [and_true]
        omega
      | false =>
        simp only [Bool.false_eq_true, and_false, or_false]
        omega

end Text.Hex

namespace Address

open Text (utf8)

variable {s t : String} {a b : Address} {digits others : List Char} {raw : Bytes}

structure Spells (s : String) (digits : List Char) : Prop where
  marked : ∃ marker ∈ ["", "0x", "0X"], s = marker ++ String.ofList digits
  count : digits.length = 40
  digits : ∀ c ∈ digits, c ∈ Text.Hex.alphabet

theorem ofDigitsIff : ofDigits raw = .ok a ↔ raw.length = 40 ∧ Text.Hex.read raw = .ok a.bytes := by
  unfold ofDigits
  split
  · rename_i count
    split
    · rename_i bytes found
      constructor
      · rintro same
        cases same
        exact ⟨count, found⟩
      · rintro ⟨_, read⟩
        have same : bytes = a.bytes := Except.ok.inj (found.symm.trans read)
        exact congrArg Except.ok (ext same)
    · rename_i digit found
      rw [found]
      exact iff_of_false nofun fun same => nomatch same.2
  · rename_i count
    exact iff_of_false nofun fun same => count same.1

theorem unmarkedDigits (all : ∀ b ∈ raw, (Text.Hex.nibble? b).isSome = true) : unmarked raw = raw := by
  unfold unmarked
  split
  · exact absurd (all 0x78 (by simp)) (by decide)
  · exact absurd (all 0x58 (by simp)) (by decide)
  · rfl

theorem markedOrNot (raw : Bytes) :
    raw = unmarked raw ∨ raw = 0x30 :: 0x78 :: unmarked raw ∨ raw = 0x30 :: 0x58 :: unmarked raw := by
  unfold unmarked
  split
  · exact .inr (.inl rfl)
  · exact .inr (.inr rfl)
  · exact .inl rfl

theorem utf8Marked (first second : Char) (digits : List Char) :
    utf8 (String.ofList [first, second] ++ String.ofList digits) =
      String.utf8EncodeChar first ++ (String.utf8EncodeChar second ++ utf8 (String.ofList digits)) := by
  rw [← String.ofList_append, Text.utf8OfList, Text.utf8OfList]
  rfl

theorem unmarkedSpelled (spells : Spells s digits) : unmarked (utf8 s) = utf8 (String.ofList digits) := by
  obtain ⟨⟨marker, listed, rfl⟩, _, all⟩ := spells
  simp only [List.mem_cons, List.not_mem_nil, or_false] at listed
  rcases listed with rfl | rfl | rfl
  · rw [String.empty_append]
    exact unmarkedDigits (Text.Hex.utf8Digits all).2
  · exact congrArg unmarked (utf8Marked '0' 'x' digits)
  · exact congrArg unmarked (utf8Marked '0' 'X' digits)

theorem parseSpelled (spells : Spells s digits) : parse s = .ok a ↔ a.bytes = Text.Hex.pairs digits := by
  have count := (Text.Hex.utf8Digits spells.digits).1
  rw [parse, ofDigitsIff, unmarkedSpelled spells, count, Text.Hex.read, Text.Hex.readPairs spells.digits,
    Except.ok.injEq]
  exact ⟨fun read => read.2.symm, fun same => ⟨spells.count, same.symm⟩⟩

theorem spelledOfParse (read : parse s = .ok a) : ∃ digits, Spells s digits := by
  obtain ⟨count, bytes⟩ := ofDigitsIff.1 read
  have all := Text.Hex.readDigits (by rw [count]) bytes
  obtain ⟨digits, known, same⟩ := Text.Hex.digitsOfBytes all
  refine ⟨digits, ?_, ?_, known⟩
  · rw [← same] at count all
    rcases markedOrNot (utf8 s) with bare | small | capital
    · refine ⟨"", by simp, Text.utf8Injective ?_⟩
      rw [String.empty_append, same]
      exact bare
    · refine ⟨"0x", by simp, Text.utf8Injective ?_⟩
      rw [small, ← same]
      exact (utf8Marked '0' 'x' digits).symm
    · refine ⟨"0X", by simp, Text.utf8Injective ?_⟩
      rw [capital, ← same]
      exact (utf8Marked '0' 'X' digits).symm
  · rw [← (Text.Hex.utf8Digits known).1, same, count]

theorem printSpelled (spells : Spells s digits) (read : parse s = .ok a) :
    toString a = "0x" ++ String.ofList (digits.map Char.toLower) := by
  have even : digits.length % 2 = 0 := by rw [spells.count]
  show Text.Hex.marked a.bytes = _
  rw [Text.Hex.marked, (parseSpelled spells).1 read, Text.Hex.writePairs spells.digits even]
  exact (String.ofList_append : String.ofList (['0', 'x'] ++ digits.map Char.toLower) = _)

theorem parseExists (spells : Spells s digits) : ∃ a, parse s = .ok a := by
  have count := (Text.Hex.utf8Digits spells.digits).1
  have size : (Text.Hex.pairs digits).length = 20 := by
    rw [readLength (Text.Hex.readPairs spells.digits 0), count, spells.count]
  exact ⟨⟨Text.Hex.pairs digits, size⟩, (parseSpelled spells).2 rfl⟩

theorem parsedAlike (spells : Spells s digits) (spells' : Spells t others) :
    parse s = parse t ↔ digits.map Char.toLower = others.map Char.toLower := by
  obtain ⟨a, read⟩ := parseExists spells
  obtain ⟨b, read'⟩ := parseExists spells'
  have written := printSpelled spells read
  have written' := printSpelled spells' read'
  rw [read, read', Except.ok.injEq]
  constructor
  · rintro rfl
    exact String.ofList_injective (String.append_right_inj _ |>.1 (written.symm.trans written'))
  · intro same
    rw [same, ← written'] at written
    have again := parsePrint a
    rw [written, parsePrint] at again
    exact (Except.ok.inj again).symm

theorem printOrder (a b : Address) :
    Key.before (utf8 (toString a)) (utf8 (toString b)) = Key.before a b := by
  have digits (c : Address) :
      utf8 (toString c) = 0x30 :: 0x78 :: utf8 (String.ofList (Text.Hex.write c.bytes)) := by
    show utf8 (String.ofList ('0' :: 'x' :: Text.Hex.write c.bytes)) = _
    rw [Text.utf8OfList, Text.utf8OfList]
    rfl
  rw [digits, digits]
  exact Text.Hex.writtenOrder a.bytes b.bytes

/-- A text is read just if it spells an address; writing what was read puts the small marker and small digits. -/
theorem spellingsRead :
    (∀ s a, parse s = .ok a ↔ ∃ digits, Spells s digits ∧ a.bytes = Text.Hex.pairs digits) ∧
    (∀ s, (∃ digits, Spells s digits) → ∃ a, parse s = .ok a) ∧
    (∀ s, (¬ ∃ digits, Spells s digits) →
      ∃ fault, parse s = .error fault ∧ Action.address s = Action.refuse (.badAddress fault)) ∧
    (∀ a : Address, parse (toString a) = .ok a) ∧
    (∀ s digits a, Spells s digits → parse s = .ok a →
      toString a = "0x" ++ String.ofList (digits.map Char.toLower)) ∧
    (∀ s t digits others, Spells s digits → Spells t others →
      (parse s = parse t ↔ digits.map Char.toLower = others.map Char.toLower)) ∧
    ∀ a b : Address, Key.before a b = true ↔ Key.before (utf8 (toString a)) (utf8 (toString b)) = true := by
  refine ⟨?read, fun s ⟨_, spells⟩ => parseExists spells, ?refused, parsePrint, fun _ _ _ => printSpelled,
    fun _ _ _ _ => parsedAlike, fun a b => by rw [printOrder]⟩
  case read =>
    intro s a
    constructor
    · intro read
      obtain ⟨digits, spells⟩ := spelledOfParse read
      exact ⟨digits, spells, (parseSpelled spells).1 read⟩
    · rintro ⟨digits, spells, bytes⟩
      exact (parseSpelled spells).2 bytes
  case refused =>
    intro s unspelled
    cases read : parse s with
    | ok a => exact absurd (spelledOfParse read) unspelled
    | error fault =>
      refine ⟨fault, rfl, ?_⟩
      rw [Action.address, read]

def mixedDigits : List Char := "479FFc856Cdfa0f5D1AE6Fa61915b01351A7773D".toList

def smallDigits : List Char := "479ffc856cdfa0f5d1ae6fa61915b01351a7773d".toList

def accents : String := String.ofList (List.replicate 20 'é')

theorem accentsUnspelled : ¬ ∃ digits, Spells accents digits := by
  rintro ⟨digits, ⟨marker, listed, same⟩, _, known⟩
  have accent : 'é' ∈ marker.toList ++ digits := by
    rw [← String.toList_ofList (l := digits), ← String.toList_append, ← same]
    decide
  rcases List.mem_append.1 accent with marked | digit
  · have unmarked : ∀ marker ∈ ["", "0x", "0X"], 'é' ∉ marker.toList := by decide
    exact unmarked marker listed marked
  · exact absurd (known _ digit) (by decide)

theorem knownDigits (known : digits.all (Text.Hex.alphabet.contains ·) = true) :
    ∀ c ∈ digits, c ∈ Text.Hex.alphabet :=
  fun c inside => List.contains_iff_mem.1 (List.all_eq_true.1 known c inside)

theorem mixedReadAlike :
    Spells ("0X" ++ String.ofList mixedDigits) mixedDigits ∧ Spells (String.ofList smallDigits) smallDigits ∧
    (¬ ∃ digits, Spells accents digits) ∧ (utf8 accents).length = 40 ∧
    parse ("0X" ++ String.ofList mixedDigits) = parse (String.ofList smallDigits) ∧
    (∃ a, parse (String.ofList smallDigits) = .ok a ∧ toString a = "0x" ++ String.ofList smallDigits) ∧
    ∃ fault, Action.address accents = Action.refuse (.badAddress fault) := by
  have mixed : Spells ("0X" ++ String.ofList mixedDigits) mixedDigits :=
    ⟨⟨"0X", by simp, rfl⟩, by decide, knownDigits (by decide)⟩
  have small : Spells (String.ofList smallDigits) smallDigits :=
    ⟨⟨"", by simp, String.empty_append.symm⟩, by decide, knownDigits (by decide)⟩
  obtain ⟨-, readable, refused, -, written, alike, -⟩ := spellingsRead
  obtain ⟨a, read⟩ := readable _ ⟨_, small⟩
  obtain ⟨fault, -, refusal⟩ := refused accents accentsUnspelled
  refine ⟨mixed, small, accentsUnspelled, by decide, (alike _ _ _ _ mixed small).2 (by decide), ⟨a, read, ?_⟩, fault,
    refusal⟩
  rw [written _ _ _ small read]
  exact congrArg _ (congrArg _ (by decide))

end Address

end TokenBridge
