import TokenBridge.Proofs.Journal
import TokenBridge.Proofs.Outcome.Frame
/-!
What an order does to votes. Each casts at most one vote, then observes some claims, one after another,
and leaves votes, cursor and height alone after that.
-/
namespace TokenBridge

open TokenBridge.Action

variable {s t u v : Store} {block : Block} {caller : Caller} {r : Response}

structure VotesKept (s t : Store) : Prop where
  attestations : t.attestations = s.attestations
  observedNonce : t.observedNonce = s.observedNonce
  ethHeight : t.ethHeight = s.ethHeight

theorem VotesKept.trans (h : VotesKept s t) (h' : VotesKept t u) : VotesKept s u :=
  ⟨h'.attestations.trans h.attestations, h'.observedNonce.trans h.observedNonce,
    h'.ethHeight.trans h.ethHeight⟩

theorem PoolMoved.votes (h : PoolMoved s t) : VotesKept s t := by
  obtain ⟨_, _, _, _, rfl⟩ := h
  exact ⟨rfl, rfl, rfl⟩

theorem EffectMoved.votes (h : EffectMoved s t) : VotesKept s t := by
  obtain ⟨_, _, _, _, _, _, u, ⟨_, _, _, _, rfl⟩, rfl⟩ := h
  exact ⟨rfl, rfl, rfl⟩

theorem OfficeMoved.votes (h : OfficeMoved s t) : VotesKept s t := by
  obtain ⟨_, _, _, _, _, _, _, _, _, _, _, rfl⟩ := h
  exact ⟨rfl, rfl, rfl⟩

theorem StakesMoved.votes (h : StakesMoved s t) : VotesKept s t := by
  obtain ⟨_, _, rfl⟩ := h
  exact ⟨rfl, rfl, rfl⟩

def Observes (block : Block) (s : Store) (os : List Observation) (t : Store) : Prop :=
  ∃ u v, Voted block s u ∧ Observing.Pass .stored block u os v ∧ VotesKept v t

theorem VotesKept.observes (h : VotesKept s t) : Observes block s [] t :=
  ⟨s, s, .inl rfl, .rest s, h⟩

theorem Movement.observes {order : Order} (moved : Movement block s order r t) :
    Observes block s r.observations t := by
  cases moved with
  | administered _ _ moved _ unobserving =>
    rw [unobserving]
    exact moved.votes.observes
  | reported _ after _ unobserving =>
    rw [unobserving, after]
    exact (Directory.reportMoves order.reports s).votes.observes
  | entered _ _ _ _ _ answer after =>
    rw [answer, after]
    exact VotesKept.observes ⟨rfl, rfl, rfl⟩
  | cancelled _ _ _ _ _ unobserving after =>
    rw [unobserving, after]
    exact VotesKept.observes ⟨rfl, rfl, rfl⟩
  | assembled _ _ made _ unobserving =>
    obtain ⟨_, _, _, _, _, rfl⟩ := Batching.assembleMoves made
    rw [unobserving]
    exact VotesKept.observes ⟨rfl, rfl, rfl⟩
  | registered _ _ _ after _ unobserving =>
    obtain ⟨_, unparked⟩ := Registry.unparkAllMoves _ _ _
    rw [unobserving, after, unparked]
    exact VotesKept.observes ⟨rfl, rfl, rfl⟩
  | @observed u v w os dissolved _ _ voted pass returned moved answers =>
    rw [answers.observations]
    exact ⟨u, v, voted, pass, (Batching.dissolvesMove returned).votes.trans moved.votes⟩

theorem Contract.setUpObserves {m : Setup} (h : Yields (Contract.setUp m) .empty r t) :
    Observes block .empty r.observations t := by
  obtain ⟨_, _, rfl, _, unobserving⟩ := Contract.setUpYields h
  obtain ⟨_, _, same⟩ := Directory.reportMoves m.stakes _
  rw [unobserving, same]
  exact VotesKept.observes ⟨rfl, rfl, rfl⟩

end TokenBridge
