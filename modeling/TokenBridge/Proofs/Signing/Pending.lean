import TokenBridge.Proofs.Directory.Keys
import TokenBridge.Proofs.Signing.Canonical
/-!
What an orchestrator is asked to sign. The questions go through what is stored, from the newest on, and leave out what
the orchestrator has confirmed; its confirmations are accepted for just what they do not leave out. So whoever signs
what is asked for is never refused, and is asked for the next in its place.
-/
namespace TokenBridge

open TokenBridge.Action

variable {s t : Store} {c : Chain} {o : Account} {a : Address} {x b : Batch} {funds : List (String × Amount)}
  {signer token : String} {signature : Blob} {nonce : UInt64}

namespace Chain

def accepts (c : Chain) (order : Order) : Bool := (c.deliver order).1.isOk

theorem deliverYields {order : Order} {r : Response} (h : Yields (action c.block order) c.store r t) :
    c.deliver order = (.ok r, { c with store := t }) := by
  rw [deliver, committed.2 h]

theorem acceptsIff {order : Order} : c.accepts order = true ↔ ∃ r t, Yields (action c.block order) c.store r t := by
  constructor
  · exact commitOk
  · rintro ⟨r, t, yields⟩
    rw [accepts, deliverYields yields]
    rfl

end Chain

theorem SortedMap.insertTakes {κ α β : Type} [Key κ] [DecidableEq κ] [DecidableEq β] (key : β → κ) {x y : β}
    (m : SortedMap κ α) (v : α) (tells : key x = key y → x = y) :
    (!(m.insert (key x) v).contains (key y)) = (!m.contains (key y) && y != x) := by
  rw [contains, getInsert]
  split
  · rename_i same
    simp [tells same]
  · rename_i apart
    have other : y ≠ x := fun same => apart (congrArg key same.symm)
    simp [contains, other]

section Pending

variable {α : Type} [DecidableEq α] {xs : List α} {order : α → Order} {ask : Store → Answers.Answer (List α)}

/-- A question is answered with the first fifty of a list for which an order would be accepted. When it is carried out
for one of these, the others are left, and the next of the list comes after them. -/
structure Pending (c : Chain) (xs : List α) (order : α → Order) (ask : Store → Answers.Answer (List α)) : Prop where
  answered : ask c.store = .ok ((xs.filter fun x => c.accepts (order x)).take Answers.pageCap)
  carriedOut : ∀ x ∈ (xs.filter fun x => c.accepts (order x)).take Answers.pageCap,
    ∃ r d, c.deliver (order x) = (.ok r, d) ∧
      ask d.store = .ok (((xs.filter fun x => c.accepts (order x)).take Answers.pageCap).erase x ++
        ((xs.filter fun x => c.accepts (order x)).drop Answers.pageCap).take 1)

theorem takeWithout {x : α} {n : Nat} (distinct : xs.Nodup) (first : x ∈ xs.take n) :
    (xs.filter (· != x)).take n = (xs.take n).erase x ++ (xs.drop n).take 1 := by
  have split := List.take_append_drop n xs
  obtain ⟨distinctFirst, _, apart⟩ := List.nodup_append.1 (split.symm ▸ distinct)
  have later : (xs.drop n).filter (· != x) = xs.drop n :=
    List.filter_eq_self.2 fun y inside => by simpa using (apart x first y inside).symm
  -- With one gone there is room for one more, if any is left.
  have room : (xs.drop n).take (n - ((xs.take n).erase x).length) = (xs.drop n).take 1 := by
    rcases Nat.le_total xs.length n with short | long
    · rw [List.drop_of_length_le short, List.take_nil, List.take_nil]
    · have positive : 0 < (xs.take n).length := List.length_pos_of_mem first
      rw [List.length_take_of_le long] at positive
      rw [List.length_erase_of_mem first, List.length_take_of_le long, Nat.sub_sub_self positive]
  calc (xs.filter (· != x)).take n
      = ((xs.take n ++ xs.drop n).filter (· != x)).take n := by rw [split]
    _ = ((xs.take n).erase x ++ xs.drop n).take n := by
      rw [List.filter_append, later, distinctFirst.erase_eq_filter]
    _ = (xs.take n).erase x ++ (xs.drop n).take 1 := by
      rw [List.take_append, room, List.take_of_length_le]
      exact Nat.le_trans (List.length_erase_le ..) (List.length_take_le ..)

theorem Pending.ofEntries {κ β : Type} [Key κ] [DecidableEq κ] {key : α → κ} {entries : SortedMap κ β}
    (distinct : (xs.map key).Nodup)
    (answered : ask c.store = .ok ((xs.filter fun x => !entries.contains (key x)).take Answers.pageCap))
    (accepted : ∀ x ∈ xs, entries.contains (key x) = false →
      ∃ v r t, Yields (Chain.action c.block (order x)) c.store r t ∧
        ask t = .ok ((xs.filter fun y => !(entries.insert (key x) v).contains (key y)).take Answers.pageCap))
    (declined : ∀ x ∈ xs, ∀ r t, Yields (Chain.action c.block (order x)) c.store r t →
      entries.contains (key x) = false) : Pending c xs order ask := by
  have listed : (xs.filter fun x => c.accepts (order x)) = xs.filter fun x => !entries.contains (key x) := by
    refine List.filter_congr fun x inside => ?_
    rw [Bool.eq_iff_iff, Chain.acceptsIff, Bool.not_eq_true']
    constructor
    · intro ⟨r, t, yields⟩
      exact declined x inside r t yields
    · intro fresh
      obtain ⟨_, r, t, yields, _⟩ := accepted x inside fresh
      exact ⟨r, t, yields⟩
  refine ⟨by rw [answered, listed], fun x first => ?_⟩
  rw [listed] at first ⊢
  obtain ⟨inside, fresh⟩ := List.mem_filter.1 (List.mem_of_mem_take first)
  obtain ⟨v, r, t, yields, after⟩ := accepted x inside (by simpa using fresh)
  refine ⟨r, _, Chain.deliverYields yields, ?_⟩
  have taken : ∀ y ∈ xs, (!(entries.insert (key x) v).contains (key y)) = (y != x && !entries.contains (key y)) := by
    intro y there
    rw [SortedMap.insertTakes key entries v (List.inj_on_of_nodup_map distinct inside there), Bool.and_comm]
  rw [after, ← takeWithout (distinct.of_map.filter _) first, List.filter_filter, List.filter_congr taken]

end Pending

theorem SignerSet.confirmMade (signature : Blob) (signs : s.SignsFor o a) (read : Address.parse signer = .ok a)
    (stored : ∃ set, s.signerSets.get? nonce = some set)
    (fresh : s.setConfirmations.contains (nonce, o) = false) :
    ∃ r t, Yields (confirm ⟨o, funds⟩ nonce signer signature) s r t ∧ SigningKept s t ∧
      t.setConfirmations = s.setConfirmations.insert (nonce, o) ⟨nonce, o, a, signature⟩ := by
  obtain ⟨v, bound, keyed⟩ := signs
  have present : s.signerSets.contains nonce = true := Option.isSome_iff_exists.2 stored
  have kept : ∀ setConfirmations, SigningKept s { s with setConfirmations } := fun _ => ⟨rfl, rfl, rfl⟩
  simp [confirm, Directory.validatorOf, Directory.signerOf, bound, keyed, read, present, fresh, kept]

theorem Batching.confirmMade {k : Address} (signature : Blob) (signs : s.SignsFor o a)
    (readToken : Address.parse token = .ok k) (read : Address.parse signer = .ok a) (stored : s.BatchAt k nonce)
    (fresh : s.batchConfirmations.contains (k, nonce, o) = false) :
    ∃ r t, Yields (Batching.confirm ⟨o, funds⟩ nonce token signer signature) s r t ∧ t.batches = s.batches ∧
      t.batchConfirmations = s.batchConfirmations.insert (k, nonce, o)
        ⟨nonce, k, o, a, signature⟩ := by
  obtain ⟨v, bound, keyed⟩ := signs
  have present : s.batches.contains (k, nonce) = true := Option.isSome_iff_exists.2 stored
  simp [confirm, Directory.validatorOf, Directory.signerOf, bound, keyed, read, readToken, present, fresh]

namespace Answers

theorem memNewestSets {set : SignerSet} : set ∈ newestSets s ↔ ∃ n, s.signerSets.get? n = some set := by
  rw [newestSets, List.mem_reverse, SortedMap.memValues]

theorem memNewestBatches : b ∈ newestBatches s ↔ ∃ key, s.batches.get? key = some b := by
  rw [newestBatches, (Sorting.sortPerm ..).mem_iff, SortedMap.memValues]

theorem newestSetsDescend (signable : Signable s) :
    (newestSets s).Pairwise fun a b => b.nonce.toNat < a.nonce.toNat := by
  have ascending : (s.signerSets.values.map SignerSet.nonce).Pairwise fun n m => n.toNat < m.toNat := by
    rw [SortedMap.keysOfValues signable.keyed]
    exact List.pairwise_map.2 (s.signerSets.ascending.imp fun before => (Nat.blt_eq ..).mp before)
  have byNonce := List.pairwise_map.1 ascending
  exact List.pairwise_reverse.2 byNonce

theorem unconfirmedSetsOk (signable : Signable s) (named : Account.validate o.name = .ok o) :
    unconfirmedSets s o.name =
      .ok (((newestSets s).filter fun set => !s.setConfirmations.contains (set.nonce, o)).take pageCap) := by
  have byNonce : s.signerSets.entries.reverse.filter (fun e => !s.setConfirmations.contains (e.1, o)) =
      s.signerSets.entries.reverse.filter fun e => !s.setConfirmations.contains (e.2.nonce, o) := by
    refine List.filter_congr fun e here => ?_
    rw [signable.keyed e.1 e.2 (SortedMap.getIff.2 (List.mem_reverse.1 here))]
  rw [unconfirmedSets, accountOf named]
  refine congrArg Except.ok ?_
  rw [byNonce, newestSets, SortedMap.values, ← List.map_reverse, List.filter_map, List.map_take]
  rfl

theorem unconfirmedBatchesOk (named : Account.validate o.name = .ok o) :
    unconfirmedBatches s o.name = .ok (((newestBatches s).filter fun b =>
      !s.batchConfirmations.contains (b.token, b.nonce, o)).take pageCap) := by
  rw [unconfirmedBatches, accountOf named]
  rfl

end Answers

def Batch.rank (b : Batch) : Nat × Nat := (UInt64.size - b.block.toNat, UInt64.size - b.nonce.toNat)

namespace Answers

theorem newerIff : newer x b = true ↔
    b.block.toNat < x.block.toNat ∨ x.block = b.block ∧ b.nonce.toNat < x.nonce.toNat := by
  simp [newer, Counter.below]

theorem newerRank (x b : Batch) : newer x b = Key.before x.rank b.rank := by
  have before (m n : Nat) : Key.before m n = true ↔ m < n := by rw [← Nat.blt_eq]; rfl
  have fits (n : UInt64) : n.toNat < UInt64.size := n.toNat_lt
  have block := fits x.block
  have block' := fits b.block
  have nonce := fits x.nonce
  have nonce' := fits b.nonce
  rw [Bool.eq_iff_iff, newerIff, Key.pairBeforeIff, before, before, Batch.rank, Batch.rank, ← UInt64.toNat_inj]
  dsimp only
  omega

theorem newestBatchesSorted : (newestBatches s).Pairwise fun x b =>
    b.block.toNat < x.block.toNat ∨ x.block = b.block ∧ b.nonce.toNat ≤ x.nonce.toNat := by
  refine (Sorting.sortSorted newerRank s.batches.values).imp fun {x b} notAfter => ?_
  rw [← Bool.not_eq_true, newerIff, ← UInt64.toNat_inj] at notAfter
  rw [← UInt64.toNat_inj]
  omega

theorem newestBatchesDistinct (filed : Batching.Filed s) :
    ((newestBatches s).map fun b => (b.token, b.nonce)).Nodup :=
  ((Sorting.sortPerm ..).map _).nodup_iff.2 filed.keysDistinct

end Answers

def SignerSet.confirmation (caller : Caller) (signer : String) (signature : Blob) (set : SignerSet) : Order :=
  .execute caller (.confirmSet set.nonce signer signature)

def Batch.confirmation (caller : Caller) (token signer : String) (signature : Blob) (b : Batch) : Order :=
  .execute caller (.confirmBatch b.nonce token signer signature)

theorem SignerSet.pending (signable : Signable c.store) (named : Account.validate o.name = .ok o)
    (signs : c.store.SignsFor o a) (read : Address.parse signer = .ok a) :
    Pending c (Answers.newestSets c.store) (confirmation ⟨o, funds⟩ signer signature) fun s =>
      Answers.unconfirmedSets s o.name := by
  have distinct : ((Answers.newestSets c.store).map fun set => (set.nonce, o)).Nodup := by
    refine List.pairwise_map.2 ((Answers.newestSetsDescend signable).imp fun less same => ?_)
    rw [Prod.mk.injEq] at same
    rw [same.1] at less
    exact Nat.lt_irrefl _ less
  refine .ofEntries distinct (Answers.unconfirmedSetsOk signable named) ?accepted ?declined
  case accepted =>
    intro set inside fresh
    obtain ⟨n, stored⟩ := Answers.memNewestSets.1 inside
    obtain rfl := signable.keyed n set stored
    obtain ⟨r, t, yields, kept, entered⟩ := confirmMade signature signs read ⟨set, stored⟩ fresh
    have listed : Answers.newestSets t = Answers.newestSets c.store := by
      rw [Answers.newestSets, kept.signerSets, Answers.newestSets]
    refine ⟨⟨set.nonce, o, a, signature⟩, r, t, yields, ?_⟩
    rw [Answers.unconfirmedSetsOk (kept.signable signable) named, listed, entered]
  case declined =>
    intro set inside r t yields
    obtain ⟨_, _, _, _, _, _, fresh, _⟩ := confirmYields yields
    exact fresh

theorem Batch.pending {written : Address → String} (filed : Batching.Filed c.store)
    (named : Account.validate o.name = .ok o) (signs : c.store.SignsFor o a)
    (readToken : ∀ k, Address.parse (written k) = .ok k) (read : Address.parse signer = .ok a) :
    Pending c (Answers.newestBatches c.store)
      (fun b => b.confirmation ⟨o, funds⟩ (written b.token) signer signature) fun s =>
      Answers.unconfirmedBatches s o.name := by
  have distinct : ((Answers.newestBatches c.store).map fun b => (b.token, b.nonce, o)).Nodup := by
    refine List.pairwise_map.2 ((List.pairwise_map.1 (Answers.newestBatchesDistinct filed)).imp fun apart same => ?_)
    simp only [Prod.mk.injEq] at same
    exact apart (Prod.ext same.1 same.2.1)
  refine .ofEntries distinct (Answers.unconfirmedBatchesOk named) ?accepted ?declined
  case accepted =>
    intro b inside fresh
    obtain ⟨⟨k, n⟩, stored⟩ := Answers.memNewestBatches.1 inside
    obtain ⟨rfl, rfl⟩ := filed.keyed k n b stored
    obtain ⟨r, t, yields, kept, entered⟩ := Batching.confirmMade signature signs (readToken b.token) read
      ⟨b, stored⟩ fresh
    have listed : Answers.newestBatches t = Answers.newestBatches c.store := by
      rw [Answers.newestBatches, kept, Answers.newestBatches]
    refine ⟨⟨b.nonce, b.token, o, a, signature⟩, r, t, yields, ?_⟩
    rw [Answers.unconfirmedBatchesOk named, listed, entered]
  case declined =>
    intro b inside r t yields
    obtain ⟨_, _, _, _, token, _, _, _, fresh, _⟩ := Batching.confirmYields yields
    rw [readToken] at token
    cases token
    exact fresh

namespace Journal

variable {j : Journal}

/-- An orchestrator is asked for the first fifty that it would be let confirm, and when it has confirmed one, for the
others with the next after them. -/
theorem Run.askedToSign (run : Run j) (signs : j.store.SignsFor o a) {written : Address → String}
    (read : ∀ k, Address.parse (written k) = .ok k) (block : Block) (funds : List (String × Amount))
    (signature : Blob) :
    ((Answers.newestSets j.store).Pairwise fun a b => b.nonce.toNat < a.nonce.toNat) ∧
    (∀ set, set ∈ Answers.newestSets j.store ↔ ∃ n, j.store.signerSets.get? n = some set) ∧
    ((Answers.newestBatches j.store).Pairwise fun a b =>
      b.block.toNat < a.block.toNat ∨ a.block = b.block ∧ b.nonce.toNat ≤ a.nonce.toNat) ∧
    (Answers.newestBatches j.store).Nodup ∧
    (∀ b, b ∈ Answers.newestBatches j.store ↔ ∃ key, j.store.batches.get? key = some b) ∧
    Pending ⟨j.store, block⟩ (Answers.newestSets j.store)
      (fun set => set.confirmation ⟨o, funds⟩ (written a) signature)
      (fun s => Answers.unconfirmedSets s o.name) ∧
    Pending ⟨j.store, block⟩ (Answers.newestBatches j.store)
      (fun b => b.confirmation ⟨o, funds⟩ (written b.token) (written a) signature)
      (fun s => Answers.unconfirmedBatches s o.name) := by
  have signable := run.signable
  have filed := run.accounted.holding.filed
  have named : Account.validate o.name = .ok o := by
    obtain ⟨v, bound, _⟩ := signs
    exact run.named.orchestrators o v bound
  exact ⟨Answers.newestSetsDescend signable, fun _ => Answers.memNewestSets, Answers.newestBatchesSorted,
    (Answers.newestBatchesDistinct filed).of_map, fun _ => Answers.memNewestBatches,
    SignerSet.pending signable named signs (read a),
    Batch.pending filed named signs read (read a)⟩

def outstanding : Journal :=
  countersigned.deliverAll
    [(⟨112, 13⟩, withdrawal "bob" (.small 50) (.small 3)),
      (⟨113, 14⟩, .execute ⟨⟨"carol"⟩, []⟩ (.requestBatch zeroWritten none)),
      (⟨114, 15⟩, .execute ⟨⟨"alpha"⟩, []⟩ .requestSet)]

theorem outstandingAsked :
    outstanding.store.validatorOf.get? ⟨"first"⟩ = some ⟨"alpha"⟩ ∧
    outstanding.store.signerOf.get? ⟨"alpha"⟩ = some (.small 1) ∧
    (Answers.unconfirmedSets outstanding.store "first").toOption.map (List.map SignerSet.nonce) = some [2] ∧
    (Answers.unconfirmedBatches outstanding.store "first").toOption.map (List.map Batch.nonce) = some [2] := by
  decide +kernel

theorem outstandingSigned :
    Run outstanding ∧ outstanding.store.SignsFor ⟨"first"⟩ (.small 1) ∧
    (∀ k : Address, Address.parse (toString k) = .ok k) ∧
    (∃ set, Answers.unconfirmedSets outstanding.store "first" = .ok [set] ∧ set.nonce = 2 ∧
      ∃ r d, Chain.deliver ⟨outstanding.store, ⟨115, 16⟩⟩
        (set.confirmation ⟨⟨"first"⟩, []⟩ (toString (Address.small 1)) ⟨[27]⟩) = (.ok r, d)) ∧
    ∃ b, Answers.unconfirmedBatches outstanding.store "first" = .ok [b] ∧ b.nonce = 2 ∧
      ∃ r d, Chain.deliver ⟨outstanding.store, ⟨115, 16⟩⟩
        (b.confirmation ⟨⟨"first"⟩, []⟩ (toString b.token) (toString (Address.small 1)) ⟨[27]⟩) = (.ok r, d) := by
  obtain ⟨bound, keyed, askedSets, askedBatches⟩ := outstandingAsked
  have run : Run outstanding := countersignedRun.deliverAll (by decide)
  have signs : outstanding.store.SignsFor ⟨"first"⟩ (.small 1) := ⟨_, bound, keyed⟩
  obtain ⟨_, _, _, _, _, sets, batches⟩ := Run.askedToSign run signs Address.parsePrint ⟨115, 16⟩ [] ⟨[27]⟩
  have setsTold := sets.answered
  have batchesTold := batches.answered
  dsimp only at setsTold batchesTold
  rw [setsTold] at askedSets
  rw [batchesTold] at askedBatches
  obtain ⟨set, one, number⟩ := List.map_eq_singleton_iff.1 (Option.some.inj askedSets)
  obtain ⟨b, only, number'⟩ := List.map_eq_singleton_iff.1 (Option.some.inj askedBatches)
  obtain ⟨r, d, done, _⟩ := sets.carriedOut set (one ▸ List.mem_singleton_self set)
  obtain ⟨r', d', done', _⟩ := batches.carriedOut b (only ▸ List.mem_singleton_self b)
  exact ⟨run, signs, Address.parsePrint, ⟨set, one ▸ setsTold, number, r, d, done⟩,
    b, only ▸ batchesTold, number', r', d', done'⟩

end Journal

end TokenBridge
