import TokenBridge.Proofs.Escrow.BestPaying
import TokenBridge.Proofs.Escrow.Executed
/-!
Batches of different tokens keep apart. What is done with those of one token reads only what belongs to it, changes
nothing that belongs to another, and so may be done before or after what is done with those of another.
-/
namespace TokenBridge

open TokenBridge.Action

variable {s t u v w : Store} {b : Batch} {k l token : Address} {nonce : UInt64} {limit : Nat}
  {height timeout : UInt64} {e : Effect}

structure AlikeFor (token : Address) (s t : Store) : Prop where
  pool : ∀ id x, x.token = token → (s.pool.get? id = some x ↔ t.pool.get? id = some x)
  batches : ∀ n b, s.batches.get? (token, n) = some b ↔ t.batches.get? (token, n) = some b
  confirmations : ∀ n o c,
    s.batchConfirmations.get? (token, n, o) = some c ↔ t.batchConfirmations.get? (token, n, o) = some c
  lastBatch : s.lastBatch.get? token = t.lastBatch.get? token
  pairing : s.pairings.get? token = t.pairings.get? token
  locked : ∀ p, s.pairings.get? token = some p → s.locked.get? p.asset.key = t.locked.get? p.asset.key

namespace AlikeFor

theorem symm (h : AlikeFor token s t) : AlikeFor token t s where
  pool id x ofToken := (h.pool id x ofToken).symm
  batches n b := (h.batches n b).symm
  confirmations n o c := (h.confirmations n o c).symm
  lastBatch := h.lastBatch.symm
  pairing := h.pairing.symm
  locked p paired := (h.locked p (h.pairing ▸ paired)).symm

theorem trans (h : AlikeFor token s t) (h' : AlikeFor token t u) : AlikeFor token s u where
  pool id x ofToken := (h.pool id x ofToken).trans (h'.pool id x ofToken)
  batches n b := (h.batches n b).trans (h'.batches n b)
  confirmations n o c := (h.confirmations n o c).trans (h'.confirmations n o c)
  lastBatch := h.lastBatch.trans h'.lastBatch
  pairing := h.pairing.trans h'.pairing
  locked p paired := (h.locked p paired).trans (h'.locked p (h.pairing ▸ paired))

end AlikeFor

def BatchesMoved (s t : Store) : Prop :=
  ∃ lastBatch locked, PoolMoved { s with lastBatch, locked } t

theorem BatchesMoved.trans (h : BatchesMoved s t) (h' : BatchesMoved t u) : BatchesMoved s u := by
  obtain ⟨_, _, _, _, _, _, rfl⟩ := h
  obtain ⟨_, _, _, _, _, _, rfl⟩ := h'
  exact ⟨_, _, _, _, _, _, rfl⟩

theorem BatchesMoved.registry (h : BatchesMoved s t) : RegistryKept s t := by
  obtain ⟨_, _, _, _, _, _, rfl⟩ := h
  exact ⟨rfl, rfl⟩

structure OnlyOf (token : Address) (s t : Store) : Prop where
  others : ∀ k, k ≠ token → AlikeFor k s t
  locked : ∀ name, (∀ p, s.pairings.get? token = some p → p.asset.key ≠ name) →
    s.locked.get? name = t.locked.get? name
  moved : BatchesMoved s t

theorem OnlyOf.here : OnlyOf token s s where
  others _ _ := ⟨fun _ _ _ => .rfl, fun _ _ => .rfl, fun _ _ _ => .rfl, rfl, rfl, fun _ _ => rfl⟩
  locked _ _ := rfl
  moved := ⟨_, _, _, _, _, _, rfl⟩

theorem BatchesMoved.same (moved : BatchesMoved s t) (moved' : BatchesMoved s u) (ht : Holding t) (hu : Holding u)
    (alike : ∀ k, AlikeFor k t u) (locked : ∀ name, t.locked.get? name = u.locked.get? name) : t = u := by
  have pools := ht.indexed.same hu.indexed fun id x => (alike x.token).pool id x rfl
  have batches : t.batches = u.batches := SortedMap.extGet fun (k, n) => Option.ext ((alike k).batches n)
  have confirmations : t.batchConfirmations = u.batchConfirmations :=
    SortedMap.extGet fun (k, n, o) => Option.ext ((alike k).confirmations n o)
  have last : t.lastBatch = u.lastBatch := SortedMap.extGet fun k => (alike k).lastBatch
  have locked : t.locked = u.locked := SortedMap.extGet locked
  obtain ⟨_, _, _, _, _, _, rfl⟩ := moved
  obtain ⟨_, _, _, _, _, _, rfl⟩ := moved'
  obtain ⟨rfl, rfl⟩ := pools
  cases batches
  cases confirmations
  cases last
  cases locked
  rfl

theorem OnlyOf.join (ofK : OnlyOf k s t) (thenL : OnlyOf l t u) (ofL : OnlyOf l s v) (thenK : OnlyOf k v w)
    (hu : Holding u) (hw : Holding w) (alikeK : AlikeFor k u w) (alikeL : AlikeFor l u w) : u = w := by
  have moved := ofK.moved.trans thenL.moved
  have alike (m : Address) : AlikeFor m u w := by
    by_cases isK : m = k
    · exact isK ▸ alikeK
    · by_cases isL : m = l
      · exact isL ▸ alikeL
      · have before : AlikeFor m s u := (ofK.others m isK).trans (thenL.others m isL)
        exact before.symm.trans ((ofL.others m isL).trans (thenK.others m isK))
  refine moved.same (ofL.moved.trans thenK.moved) hu hw alike fun name => ?_
  by_cases named : ∃ m p, s.pairings.get? m = some p ∧ p.asset.key = name
  · obtain ⟨m, p, paired, rfl⟩ := named
    rw [← moved.registry.pairings] at paired
    exact (alike m).locked p paired
  · -- What is locked under a name that no token is paired with was left alone all along.
    have unnamed (m p) (paired : s.pairings.get? m = some p) : p.asset.key ≠ name := fun same =>
      named ⟨m, p, paired, same⟩
    have before : s.locked.get? name = u.locked.get? name :=
      (ofK.locked name (unnamed k)).trans (thenL.locked name (ofK.moved.registry.pairings ▸ unnamed l))
    have after : s.locked.get? name = w.locked.get? name :=
      (ofL.locked name (unnamed l)).trans (thenK.locked name (ofL.moved.registry.pairings ▸ unnamed k))
    exact before.symm.trans after

theorem Registry.BothWays.apart (inv : Registry.BothWays s) {p q : Pairing} (ofK : s.pairings.get? k = some p)
    (ofL : s.pairings.get? l = some q) (apart : k ≠ l) : q.asset.key ≠ p.asset.key := by
  intro same
  have listed := (inv k p ofK).2
  rw [← same, (inv l q ofL).2] at listed
  exact apart (Option.some.inj listed).symm

instance : Std.Asymm Transfer.OutPays where
  asymm x y first second := by
    rcases first with more | ⟨_, lower⟩
    · rcases second with less | ⟨level, _⟩
      · omega
      · rw [level] at more
        omega
    · rcases second with less | ⟨_, higher⟩
      · simp_all
      · omega

namespace Batching

theorem queuedAlike (hs : Pool.Indexed s) (hw : Pool.Indexed w) (alike : AlikeFor token s w) :
    Pool.queued s token = Pool.queued w token := by
  refine (Pool.queuedSorted hs).eq_of_mem_iff (Pool.queuedSorted hw) fun x => ?_
  rw [Pool.memQueued hs, Pool.memQueued hw]
  exact and_congr_left fun ofToken => alike.pool x.id x ofToken

theorem assembleOnly (h : Holding s) (made : Yields (assemble token limit height timeout) s b t) :
    OnlyOf token s t := by
  obtain ⟨_, _, _, rfl⟩ := (assembleIff h.indexed).1 made
  have taken : ∀ x ∈ (Pool.queued s token).take limit, s.pool.get? x.id = some x ∧ x.token = token := fun x first =>
    (Pool.memQueued h.indexed).1 (List.mem_of_mem_take first)
  have left := Pool.removedPool h.indexed fun x first => (taken x first).1
  obtain ⟨pool, feeQueue, removed⟩ := Pool.removeAllKeeps ((Pool.queued s token).take limit) s
  rw [removed] at left ⊢
  refine ⟨fun k other => ⟨fun id x ofK => ?pool, fun n c => ?batches, fun _ _ _ => .rfl, ?last, rfl, fun _ _ => rfl⟩,
    fun _ _ => rfl, _, _, _, _, _, _, rfl⟩
  case pool =>
    refine (and_iff_left fun first => other ?_).symm.trans (left id x).symm
    rw [← ofK, (taken x first).2]
  case batches =>
    rw [SortedMap.getInsertOther _ _ (by rintro ⟨⟩; exact other rfl)]
  case last => exact (SortedMap.getInsertOther _ _ other.symm).symm

theorem assembleAlike (hs : Pool.Indexed s) (hw : Pool.Indexed w) (alike : AlikeFor token s w)
    (made : Yields (assemble token limit height timeout) s b t) :
    ∃ v, Yields (assemble token limit height timeout) w b v ∧ AlikeFor token t v := by
  obtain ⟨filled, next, same, rfl⟩ := (assembleIff hs).1 made
  have queue := queuedAlike hs hw alike
  have last : w.lastBatch.getD token 0 = s.lastBatch.getD token 0 := by
    rw [SortedMap.getD, SortedMap.getD, alike.lastBatch]
  refine ⟨_, (assembleIff hw).2 ⟨queue ▸ filled, last ▸ next, queue ▸ same, rfl⟩, ?_⟩
  rw [← queue]
  generalize (Pool.queued s token).take limit = xs
  have left (id x) (ofToken : x.token = token) :
      (Pool.removeAll xs s).pool.get? id = some x ↔ (Pool.removeAll xs w).pool.get? id = some x := by
    rw [Pool.removedIds, Pool.removedIds, alike.pool id x ofToken]
  obtain ⟨_, _, removedS⟩ := Pool.removeAllKeeps xs s
  obtain ⟨_, _, removedW⟩ := Pool.removeAllKeeps xs w
  rw [removedS, removedW] at left ⊢
  refine ⟨left, fun n c => ?batches, alike.confirmations, ?last, alike.pairing, alike.locked⟩
  case batches =>
    rw [SortedMap.getInsert, SortedMap.getInsert]
    split
    · exact .rfl
    · exact alike.batches n c
  case last => rw [SortedMap.getInsertSelf, SortedMap.getInsertSelf]

structure Vacated (token : Address) (gone back : UInt64 → Prop) (s t : Store) : Prop where
  batches : ∀ k c, t.batches.get? k = some c ↔ s.batches.get? k = some c ∧ ¬ (k.1 = token ∧ gone k.2)
  confirmations : ∀ k c, t.batchConfirmations.get? k = some c ↔ s.batchConfirmations.get? k = some c ∧
    ¬ (k.1 = token ∧ gone k.2.1 ∧ ∃ d, s.batches.get? (token, k.2.1) = some d)
  pool : ∀ id x, t.pool.get? id = some x ↔ s.pool.get? id = some x ∨
    x.id = id ∧ ∃ n c, back n ∧ s.batches.get? (token, n) = some c ∧ x ∈ c.transfers
  after : ∃ locked, PoolMoved { s with locked } t

namespace Vacated

variable {gone back : UInt64 → Prop}

theorem only (h : Vacated token gone back s t) (filed : Filed s) (inv : Registry.BothWays s)
    (locked : ∀ name, (∀ p, s.pairings.get? token = some p → p.asset.key ≠ name) →
      s.locked.get? name = t.locked.get? name) : OnlyOf token s t := by
  obtain ⟨_, after⟩ := h.after
  refine ⟨fun k other => ⟨fun id x ofK => ?pool, fun n c => ?batches, fun n o c => ?confirmations, ?last, ?pairing,
    fun p paired => locked _ fun q ofToken => inv.apart paired ofToken other⟩, locked, _, _, after⟩
  case pool =>
    rw [h.pool]
    refine ⟨.inl, fun here => here.resolve_right ?_⟩
    rintro ⟨_, n, c, _, stored, inside⟩
    exact other (ofK.symm.trans (filed.oneToken token n c stored x inside))
  case batches =>
    rw [h.batches]
    exact (and_iff_left fun ofToken => other ofToken.1).symm
  case confirmations =>
    rw [h.confirmations]
    exact (and_iff_left fun ofToken => other ofToken.1).symm
  case last => rw [after.lastBatch]
  case pairing => rw [after.books.pairings]

theorem alike (h : Vacated token gone back s t) (h' : Vacated token gone back w v) (alike : AlikeFor token s w)
    (locked : ∀ p, s.pairings.get? token = some p → t.locked.get? p.asset.key = v.locked.get? p.asset.key) :
    AlikeFor token t v where
  pool id x ofToken := by
    rw [h.pool, h'.pool, alike.pool id x ofToken]
    simp only [alike.batches]
  batches n c := by rw [h.batches, h'.batches, alike.batches]
  confirmations n o c := by
    rw [h.confirmations, h'.confirmations, alike.confirmations]
    simp only [alike.batches]
  lastBatch := by
    obtain ⟨_, after⟩ := h.after
    obtain ⟨_, after'⟩ := h'.after
    rw [after.lastBatch, after'.lastBatch]
    exact alike.lastBatch
  pairing := by
    obtain ⟨_, after⟩ := h.after
    obtain ⟨_, after'⟩ := h'.after
    rw [after.books.pairings, after'.books.pairings]
    exact alike.pairing
  locked p paired := by
    obtain ⟨_, after⟩ := h.after
    rw [after.books.pairings] at paired
    exact locked p paired

end Vacated

theorem dissolveVacates {p : PUnit} (h : Holding s) (done : Yields (dissolve token nonce) s p t) :
    Vacated token (· = nonce) (· = nonce) s t := by
  obtain ⟨b, found, _⟩ := dissolveYields done
  have dissolved := dissolveDissolved h done
  have indexed := (dissolveExchanged h done).holding.indexed
  refine ⟨fun k c => ?batches, fun k c => ?confirmations, fun id x => ?pool, ?after⟩
  case batches => rw [dissolved.batches, List.mem_singleton]
  case confirmations =>
    rw [dissolved.confirmations, List.mem_singleton]
    refine and_congr_right fun _ => not_congr (and_congr_right fun _ => (and_iff_left_of_imp ?_).symm)
    rintro rfl
    exact ⟨b, found⟩
  case pool =>
    rw [indexed.getIff, h.indexed.getIff, dissolved.pool, or_and_right, and_comm (a := x.id = id)]
    simp only [List.mem_singleton, exists_eq_left, exists_and_left]
  case after => exact ⟨s.locked, dissolveMoves done⟩

theorem Retired.vacates (h : Retired token nonce b s t) :
    Vacated token (·.toNat ≤ nonce.toNat) (·.toNat < nonce.toNat) s t := by
  refine ⟨h.batches, fun k c => ?_, h.pool, ?_⟩
  · rw [h.confirmations, SortedMap.contains, Option.isSome_iff_exists]
  · obtain ⟨locked, after⟩ := h.after
    exact ⟨locked, _, _, _, _, after⟩

theorem settleAgrees {p : Pairing} {total : Amount} {f : Effect}
    (alike : s.locked.get? p.asset.key = w.locked.get? p.asset.key) (done : Yields (settle p total) s e t)
    (done' : Yields (settle p total) w f v) : f = e ∧ t.locked.get? p.asset.key = v.locked.get? p.asset.key := by
  rcases settleYields done with ⟨ours, sum, added, rfl, rfl⟩ | ⟨foreign, rfl, rfl⟩
  · rcases settleYields done' with ⟨_, sum', added', rfl, rfl⟩ | ⟨foreign, _⟩
    · rw [SortedMap.getD, ← alike, ← SortedMap.getD, added] at added'
      cases added'
      exact ⟨rfl, by rw [SortedMap.getInsertSelf, SortedMap.getInsertSelf]⟩
    · rw [ours] at foreign
      cases foreign
  · rcases settleYields done' with ⟨ours, _⟩ | ⟨_, rfl, rfl⟩
    · rw [ours] at foreign
      cases foreign
    · exact ⟨rfl, alike⟩

theorem settleLocked {p : Pairing} {total : Amount} {name : String} (done : Yields (settle p total) s e t)
    (other : p.asset.key ≠ name) : s.locked.get? name = t.locked.get? name := by
  rcases settleYields done with ⟨_, _, _, rfl, _⟩ | ⟨_, rfl, _⟩
  · exact (SortedMap.getInsertOther _ _ other).symm
  · rfl

theorem executedOnly (h : Holding s) (inv : Registry.BothWays s) (done : Yields (executed token nonce) s e t) :
    OnlyOf token s t := by
  rcases executedYields done with ⟨_, _, rfl⟩ | ⟨b, u, _, found, _, older, last⟩
  · exact .here
  · refine (executedRetires h found done).vacates.only h.filed inv fun name other => ?_
    obtain ⟨_, pairings, locked⟩ := (clearedMoves nonce older).books
    rw [pairings] at last
    split at last
    · rw [last.2, locked]
    · rename_i p paired
      rw [← locked]
      exact settleLocked last (other p paired)

theorem executedAgrees {f : Effect} (hs : Holding s) (hw : Holding w) (alike : AlikeFor token s w)
    (done : Yields (executed token nonce) s e t) (done' : Yields (executed token nonce) w f v) :
    f = e ∧ AlikeFor token t v := by
  rcases executedYields done with ⟨missing, rfl, rfl⟩ | ⟨b, u, total, found, sum, older, last⟩
  · rcases executedYields done' with ⟨_, rfl, rfl⟩ | ⟨c, _, _, found, _⟩
    · exact ⟨rfl, alike⟩
    · rw [(alike.batches nonce c).2 found] at missing
      cases missing
  · have found' := (alike.batches nonce b).1 found
    rcases executedYields done' with ⟨missing, _⟩ | ⟨c, u', total', stored, sum', older', last'⟩
    · rw [missing] at found'
      cases found'
    · rw [found'] at stored
      cases stored
      rw [sum] at sum'
      cases sum'
      obtain ⟨_, pairings, locked⟩ := (clearedMoves nonce older).books
      obtain ⟨_, pairings', locked'⟩ := (clearedMoves nonce older').books
      rw [pairings] at last
      rw [pairings', ← alike.pairing] at last'
      -- The same batch weighs the same and is settled with the same pairing, against what is locked alike.
      have vacated := (executedRetires hs found done).vacates
      have vacated' := (executedRetires hw found' done').vacates
      split at last
      · rename_i missing
        rw [missing] at last'
        exact ⟨last'.1.trans last.1.symm, vacated.alike vacated' alike fun p paired => by
          rw [missing] at paired
          cases paired⟩
      · rename_i p paired
        rw [paired] at last'
        obtain ⟨same, level⟩ := settleAgrees (by rw [locked, locked']; exact alike.locked p paired) last last'
        refine ⟨same, vacated.alike vacated' alike fun q again => ?_⟩
        cases paired.symm.trans again
        exact level

theorem executedAlike (hs : Holding s) (hw : Holding w) (alike : AlikeFor token s w)
    (done : Yields (executed token nonce) s e t) : ∃ v, Yields (executed token nonce) w e v ∧ AlikeFor token t v := by
  have bears : w.Bears (.batchExecuted nonce token) := by
    intro b found
    obtain ⟨fits, locks⟩ := executedBears done b ((alike.batches nonce b).2 found)
    refine ⟨fits, fun p paired ours => ?_⟩
    rw [← alike.pairing] at paired
    rw [SortedMap.getD, ← alike.locked p paired]
    exact locks p paired ours
  rcases yieldsOrHalts (executed token nonce) w with ⟨f, v, done'⟩ | ⟨_, _, halts⟩
  · obtain ⟨rfl, alike'⟩ := executedAgrees hs hw alike done done'
    exact ⟨v, done', alike'⟩
  · exact absurd bears (executedHalts halts).2

theorem dissolveOnly {p : PUnit} (h : Holding s) (inv : Registry.BothWays s)
    (done : Yields (dissolve token nonce) s p t) : OnlyOf token s t := by
  refine (dissolveVacates h done).only h.filed inv fun _ _ => ?_
  rw [(dissolveMoves done).books.locked]

theorem dissolveAlike {p : PUnit} (hs : Holding s) (hw : Holding w) (alike : AlikeFor token s w)
    (done : Yields (dissolve token nonce) s p t) :
    ∃ v, Yields (dissolve token nonce) w ⟨⟩ v ∧ AlikeFor token t v := by
  obtain ⟨b, found, _⟩ := dissolveYields done
  have done' := dissolveMade ((alike.batches nonce b).1 found)
  refine ⟨_, done', (dissolveVacates hs done).alike (dissolveVacates hw done') alike fun p paired => ?_⟩
  rw [(dissolveMoves done).books.locked, (dissolveMoves done').books.locked]
  exact alike.locked p paired

end Batching

/-- Where books and registry are in order, the action changes only what belongs to the token, and does the same wherever
that is alike. -/
structure Confined {α : Type} (token : Address) (x : Action α) : Prop where
  holding : ∀ {s a t}, Holding s → Yields x s a t → Holding t
  only : ∀ {s a t}, Holding s → Registry.BothWays s → Yields x s a t → OnlyOf token s t
  alike : ∀ {s a t w}, Holding s → Holding w → AlikeFor token s w → Yields x s a t →
    ∃ v, Yields x w a v ∧ AlikeFor token t v

namespace Batching

theorem assembleConfined : Confined token (assemble token limit height timeout) where
  holding h made := (assembleExchanged h made).holding
  only h _ made := assembleOnly h made
  alike hs hw alike made := assembleAlike hs.indexed hw.indexed alike made

theorem dissolveConfined : Confined token (dissolve token nonce) where
  holding h done := (dissolveExchanged h done).holding
  only h inv done := dissolveOnly h inv done
  alike hs hw alike done := dissolveAlike hs hw alike done

theorem executedConfined : Confined token (executed token nonce) where
  holding h done := ((executedEffected h done).exchanged h).1.holding
  only h inv done := executedOnly h inv done
  alike hs hw alike done := executedAlike hs hw alike done

end Batching

namespace Confined

variable {α β : Type} {x : Action α} {y : Action β} {a : α} {c : β}

theorem map {f : α → β} (h : Confined token x) : Confined token (f <$> x) where
  holding holding done := by
    obtain ⟨_, done, _⟩ := yieldsMap.1 done
    exact h.holding holding done
  only holding inv done := by
    obtain ⟨_, done, _⟩ := yieldsMap.1 done
    exact h.only holding inv done
  alike hs hw alike done := by
    obtain ⟨a, done, same⟩ := yieldsMap.1 done
    obtain ⟨v, again, alike⟩ := h.alike hs hw alike done
    exact ⟨v, yieldsMap.2 ⟨a, again, same⟩, alike⟩

theorem swap (hx : Confined k x) (hy : Confined l y) (apart : k ≠ l) (h : Holding s) (inv : Registry.BothWays s)
    (first : Yields x s a t) (second : Yields y t c u) : ∃ v, Yields y s c v ∧ Yields x v a u := by
  have ht := hx.holding h first
  have onlyK := hx.only h inv first
  have onlyL := hy.only ht (onlyK.moved.registry.bothWays inv) second
  obtain ⟨v, second', alikeL⟩ := hy.alike ht h (onlyK.others l apart.symm).symm second
  have hv := hy.holding h second'
  have onlyL' := hy.only h inv second'
  obtain ⟨u', first', alikeK⟩ := hx.alike h hv (onlyL'.others k apart) first
  have onlyK' := hx.only hv (onlyL'.moved.registry.bothWays inv) first'
  have same : u = u' := onlyK.join onlyL onlyL' onlyK' (hy.holding ht second) (hx.holding hv first')
    ((onlyL.others k apart).symm.trans alikeK) (alikeL.trans (onlyK'.others l apart.symm))
  exact ⟨v, second', same ▸ first'⟩

end Confined

inductive BatchOrder where
  | assemble (limit : Nat) (height timeout : UInt64)
  | dissolve (nonce : UInt64)
  | execute (nonce : UInt64)

inductive BatchAnswer where
  | built (b : Batch)
  | dissolved
  | executed (e : Effect)

def BatchOrder.carryOut (token : Address) : BatchOrder → Action BatchAnswer
  | assemble limit height timeout => .built <$> Batching.assemble token limit height timeout
  | dissolve nonce => (fun _ => .dissolved) <$> Batching.dissolve token nonce
  | execute nonce => .executed <$> Batching.executed token nonce

theorem BatchOrder.confined (o : BatchOrder) : Confined token (o.carryOut token) := by
  cases o with
  | assemble limit height timeout => exact Batching.assembleConfined.map
  | dissolve nonce => exact Batching.dissolveConfined.map
  | execute nonce => exact Batching.executedConfined.map

namespace Journal

variable {j : Journal}

theorem Run.reachedBothWays (run : Run j) (reached : j.Reaches s) : Registry.BothWays s := by
  cases reached with
  | here => exact run.bothWays
  | @within _ _ v _ n fingerprint a voted pass _ _ =>
    have entered := (voted.escrow.exchanged run.accounted.holding).holding
    have passed := (Observing.passRegistering entered pass).bothWays (voted.escrow.registry.bothWays run.bothWays)
    have kept : EscrowKept v (Observing.mark n fingerprint a v) := Observing.markEscrow
    exact kept.registry.bothWays passed

theorem Run.apartCommute (run : Run j) (reached : j.Reaches s) (apart : k ≠ l) (o o' : BatchOrder)
    (a a' : BatchAnswer) (u : Store) :
    (∃ t, Yields (o.carryOut k) s a t ∧ Yields (o'.carryOut l) t a' u) ↔
      ∃ t, Yields (o'.carryOut l) s a' t ∧ Yields (o.carryOut k) t a u := by
  have holding := (run.reached reached).1
  have inv := run.reachedBothWays reached
  constructor
  · rintro ⟨t, first, second⟩
    exact o.confined.swap o'.confined apart holding inv first second
  · rintro ⟨t, first, second⟩
    exact o'.confined.swap o.confined apart.symm holding inv first second

def twiceWaiting : Journal :=
  twicePaired.deliver ⟨112, 13⟩ (.execute ⟨⟨"contract"⟩, []⟩ (.receive "alice" (.small 60) mixed.payload))

def executeThenBuild (token : Address) : Action (BatchAnswer × BatchAnswer) := do
  let executed ← (BatchOrder.execute 2).carryOut .zero
  let built ← (BatchOrder.assemble 5 113 7200).carryOut token
  return (executed, built)

theorem twiceWaitingDone : ∃ token ∈ twiceWaiting.store.tokenOf.get? "contract",
    .zero ≠ token ∧ ((executeThenBuild token).commit twiceWaiting.store).1.isOk = true := by
  decide +kernel

theorem twiceWaitingCommutes :
    Run twiceWaiting ∧ twiceWaiting.Reaches twiceWaiting.store ∧ ∃ token, .zero ≠ token ∧ ∃ a a' t u v,
      Yields ((BatchOrder.execute 2).carryOut .zero) twiceWaiting.store a t ∧
      Yields ((BatchOrder.assemble 5 113 7200).carryOut token) t a' u ∧
      Yields ((BatchOrder.assemble 5 113 7200).carryOut token) twiceWaiting.store a' v ∧
      Yields ((BatchOrder.execute 2).carryOut .zero) v a u := by
  obtain ⟨token, _, apart, done⟩ := twiceWaitingDone
  have run : Run twiceWaiting := .order (.order halfBatchedRun _ _ rfl) _ _ rfl
  obtain ⟨_, _, both⟩ := commitOk done
  obtain ⟨a, t, first, rest⟩ := yieldsBind.1 both
  obtain ⟨a', u, second, _⟩ := yieldsBind.1 rest
  obtain ⟨v, second', first'⟩ := (Run.apartCommute run .here apart _ _ a a' u).1 ⟨t, first, second⟩
  exact ⟨run, .here, token, apart, a, a', t, u, v, first, second, second', first'⟩

end Journal

end TokenBridge
