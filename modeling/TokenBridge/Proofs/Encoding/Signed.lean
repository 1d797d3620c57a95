import TokenBridge.Checkpoint
import TokenBridge.Proofs.Encoding.Words
/-!
What a signature under a checkpoint is for. The number of words gives the length of the lists, and each word gives its
argument, so the bytes of a checkpoint have one reading; the second word says which kind of checkpoint they are.
-/
namespace TokenBridge

/-- What Ethereum pays for a transfer, and to whom. -/
def Transfer.payment (t : Transfer) : Amount × Address × Amount := (t.amount, t.destination, t.fee)

namespace Checkpoint

variable {α β γ : Type} {xs ys : List α} {ws vs ws' vs' : List Word} {bridge bridge' : Word}
  {nonce nonce' : UInt64} {members members' : List Signer} {rewardAmount rewardAmount' : Amount}
  {rewardToken rewardToken' : Address} {b b' : Batch}

theorem preimageLength (ws : List Word) : (preimage ws).length = 32 * ws.length := by
  induction ws with
  | nil => rfl
  | cons w ws ih =>
    rw [preimage, List.flatMap_cons, List.length_append, w.size, ← preimage, ih, List.length_cons]
    omega

theorem wordsTold : preimage ws = preimage vs ↔ ws = vs := by
  refine ⟨fun same => ?_, congrArg preimage⟩
  have count : ws.length = vs.length := by
    have lengths := congrArg List.length same
    rw [preimageLength, preimageLength] at lengths
    omega
  induction ws generalizing vs with
  | nil => exact (List.length_eq_zero_iff.1 count.symm).symm
  | cons w ws ih =>
    obtain ⟨v, vs, rfl⟩ := List.exists_cons_of_length_eq_add_one count.symm
    obtain ⟨first, rest⟩ := List.append_inj same (w.size.trans v.size.symm)
    rw [Word.ext first, ih rest (Nat.succ.inj count)]

theorem listedSplit (count : ws.length = vs.length) (same : ws' ++ listed ws = vs' ++ listed vs) :
    ws' = vs' ∧ ws = vs := by
  obtain ⟨front, back⟩ := List.append_inj' same (congrArg Nat.succ count)
  exact ⟨front, (List.cons.inj back).2⟩

@[simp] theorem numberTold {n m : UInt64} : Word.ofNat n.toNat = Word.ofNat m.toNat ↔ n = m := by
  have below (k : UInt64) : k.toNat < 256 ^ 32 := Nat.lt_trans k.toNat_lt (by decide)
  constructor
  · intro same
    exact UInt64.toNat_inj.1 (Word.ofNatInjective (below n) (below m) same)
  · rintro rfl
    rfl

@[simp] theorem amountTold {n m : Amount} : Word.ofNat n.val = Word.ofNat m.val ↔ n = m := by
  have below (k : Amount) : k.val < 256 ^ 32 := Nat.lt_trans k.bound (by decide)
  constructor
  · intro same
    exact Amount.ext (Word.ofNatInjective (below n) (below m) same)
  · rintro rfl
    rfl

@[simp] theorem addressTold {a a' : Address} : a.word = a'.word ↔ a = a' := by
  constructor
  · intro same
    exact Address.ext (List.append_cancel_left (congrArg Word.bytes same))
  · rintro rfl
    rfl

theorem labelsApart : label "checkpoint" ≠ label "transactionBatch" := by decide

theorem columnTells {f : α → β} {g : α → γ} (tells : ∀ x y, f x = f y → g x = g y)
    (same : xs.map f = ys.map f) : xs.map g = ys.map g := by
  induction xs generalizing ys with
  | nil =>
    cases ys with
    | nil => rfl
    | cons => cases same
  | cons x xs ih =>
    cases ys with
    | nil => cases same
    | cons y ys =>
      obtain ⟨head, tail⟩ := List.cons.inj same
      rw [List.map_cons, List.map_cons, tells x y head, ih tail]

theorem columnsJoin {f : α → β} {g : α → γ} (first : xs.map f = ys.map f) (second : xs.map g = ys.map g) :
    xs.map (fun x => (f x, g x)) = ys.map fun x => (f x, g x) := by
  rw [← List.zip_map', first, second, List.zip_map']

theorem membersJoin (addresses : members.map Signer.address = members'.map Signer.address)
    (powers : members.map Signer.power = members'.map Signer.power) : members = members' := by
  have pairs := columnsJoin addresses powers
  have whole : members.map id = members'.map id := by
    refine columnTells (fun x y same => ?_) pairs
    cases x
    cases y
    simp_all
  simpa using whole

theorem signerSetWordsTell :
    signerSetWords bridge nonce members rewardAmount rewardToken =
        signerSetWords bridge' nonce' members' rewardAmount' rewardToken' ↔
      bridge = bridge' ∧ nonce = nonce' ∧ members = members' ∧ rewardAmount = rewardAmount' ∧
        rewardToken = rewardToken' := by
  constructor
  · intro same
    have count : members.length = members'.length := by
      have words := congrArg List.length same
      simp only [signerSetWords, listed, List.length_append, List.length_cons, List.length_map,
        List.length_nil] at words
      omega
    obtain ⟨front, powers⟩ := listedSplit (by simp [count]) same
    obtain ⟨heads, addresses⟩ := listedSplit (by simp [count]) front
    simp only [List.cons.injEq, numberTold, amountTold, addressTold] at heads
    obtain ⟨bridges, -, nonces, -, -, amounts, tokens, -⟩ := heads
    refine ⟨bridges, nonces, ?_, amounts, tokens⟩
    exact membersJoin (columnTells (fun _ _ => addressTold.1) addresses)
      (columnTells (fun _ _ => numberTold.1) powers)
  · rintro ⟨rfl, rfl, rfl, rfl, rfl⟩
    rfl

theorem batchWordsTell :
    batchWords bridge b = batchWords bridge' b' ↔
      bridge = bridge' ∧ b.nonce = b'.nonce ∧ b.token = b'.token ∧ b.timeout = b'.timeout ∧
        b.transfers.map Transfer.payment = b'.transfers.map Transfer.payment := by
  constructor
  · intro same
    have count : b.transfers.length = b'.transfers.length := by
      have words := congrArg List.length same
      simp only [batchWords, listed, List.length_append, List.length_cons, List.length_map,
        List.length_nil] at words
      omega
    obtain ⟨front, fees⟩ := listedSplit (by simp [count]) same
    obtain ⟨front, destinations⟩ := listedSplit (by simp [count]) front
    obtain ⟨heads, amounts⟩ := listedSplit (by simp [count]) front
    simp only [List.cons.injEq, numberTold, addressTold] at heads
    obtain ⟨bridges, -, -, -, -, nonces, tokens, timeouts, -⟩ := heads
    refine ⟨bridges, nonces, tokens, timeouts, ?_⟩
    exact columnsJoin (columnTells (fun _ _ => amountTold.1) amounts)
      (columnsJoin (columnTells (fun _ _ => addressTold.1) destinations)
        (columnTells (fun _ _ => amountTold.1) fees))
  · rintro ⟨rfl, nonces, tokens, timeouts, payments⟩
    have count : b.transfers.length = b'.transfers.length := by
      simpa using congrArg List.length payments
    have amounts : b.transfers.map (fun t => Word.ofNat t.amount.val) =
        b'.transfers.map fun t => Word.ofNat t.amount.val :=
      columnTells (fun _ _ paid => amountTold.2 (congrArg Prod.fst paid)) payments
    have destinations : b.transfers.map (fun t => t.destination.word) =
        b'.transfers.map fun t => t.destination.word :=
      columnTells (fun _ _ paid => addressTold.2 (congrArg (·.2.1) paid)) payments
    have fees : b.transfers.map (fun t => Word.ofNat t.fee.val) =
        b'.transfers.map fun t => Word.ofNat t.fee.val :=
      columnTells (fun _ _ paid => amountTold.2 (congrArg (·.2.2) paid)) payments
    simp only [batchWords, count, nonces, tokens, timeouts, amounts, destinations, fees]

/-- The bytes under a checkpoint tell its arguments, and for which of the two it is. Of a batch they tell what Ethereum
pays, in order, but not who sent it. -/
theorem argumentsTold :
    (∀ bridge nonce members rewardAmount rewardToken bridge' nonce' members' rewardAmount' rewardToken',
      preimage (signerSetWords bridge nonce members rewardAmount rewardToken) =
          preimage (signerSetWords bridge' nonce' members' rewardAmount' rewardToken') ↔
        bridge = bridge' ∧ nonce = nonce' ∧ members = members' ∧ rewardAmount = rewardAmount' ∧
          rewardToken = rewardToken') ∧
    (∀ bridge b bridge' b', preimage (batchWords bridge b) = preimage (batchWords bridge' b') ↔
      bridge = bridge' ∧ b.nonce = b'.nonce ∧ b.token = b'.token ∧ b.timeout = b'.timeout ∧
        b.transfers.map Transfer.payment = b'.transfers.map Transfer.payment) ∧
    ∀ bridge nonce members rewardAmount rewardToken bridge' b,
      preimage (signerSetWords bridge nonce members rewardAmount rewardToken) ≠
        preimage (batchWords bridge' b) := by
  refine ⟨?sets, ?batches, ?apart⟩
  case sets =>
    intros
    exact wordsTold.trans signerSetWordsTell
  case batches =>
    intros
    exact wordsTold.trans batchWordsTell
  case apart =>
    intro _ _ _ _ _ _ _ same
    exact labelsApart (List.cons.inj (List.cons.inj (wordsTold.1 same)).2).1

end Checkpoint

end TokenBridge
