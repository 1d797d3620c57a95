import TokenBridge.Proofs.Observation.InOrder
/-!
Exactly-once observation over whole runs: what is observed at a point of a run, what has taken effect until
then, and what stays so.
-/
namespace TokenBridge

open TokenBridge.Action

def Store.ObservedAt (s : Store) (nonce : UInt64) (fingerprint : Word) : Prop :=
  ∃ a, s.attestations.get? (nonce, fingerprint) = some a ∧ a.observed = true

theorem Store.observedAtIff {s : Store} {n : UInt64} {p : Word} :
    s.ObservedAt n p ↔ ∃ c, s.observed? n p = some c := by
  simp only [ObservedAt, observedIff]
  constructor
  · rintro ⟨a, found, observed⟩
    exact ⟨a.claim, a, found, observed, rfl⟩
  · rintro ⟨_, a, found, observed, _⟩
    exact ⟨a, found, observed⟩

theorem Advanced.observedAt {s t : Store} {n : UInt64} {p : Word} (h : Advanced s t)
    (observed : s.ObservedAt n p) : t.ObservedAt n p := by
  obtain ⟨c, found⟩ := Store.observedAtIff.1 observed
  exact Store.observedAtIff.2 ⟨c, h.observed n p c found⟩

namespace Journal

variable {j k : Journal}

theorem observationsConcat (j : Journal) (d : Deed) (t : Store) :
    observations ⟨j.deeds ++ [d], t⟩ = j.observations ++ d.response.observations := by
  simp [observations]

theorem Run.inOrder (run : Run j) : InOrder j.store j.observations := by
  refine Run.keeps ?setUp ?deed run
  case setUp =>
    intro block m r t yields
    have observes : Observes block .empty r.observations t := Contract.setUpObserves yields
    simpa [observations] using (observes.inOrder .empty).1
  case deed =>
    intro j block order r t _ inv later yields
    rw [observationsConcat]
    exact ((Chain.laterMovement later yields).observes.inOrder inv).1

theorem Run.observes (run : Run j) :
    ∀ d ∈ j.deeds, Observes d.block d.before d.response.observations d.after := by
  refine Run.keeps ?setUp ?deed run
  case setUp =>
    intro block m r t yields d found
    cases List.mem_singleton.1 found
    exact Contract.setUpObserves yields
  case deed =>
    intro j block order r t _ past later yields d found
    rcases List.mem_append.1 found with old | new
    · exact past d old
    · cases List.mem_singleton.1 new
      exact (Chain.laterMovement later yields).observes

theorem Follows.advanced (h : Follows j k) (run : Run j) : Advanced j.store k.store := by
  refine Follows.keeps h run .here ?_
  intro i block order r t past advanced later yields
  exact advanced.trans ((Chain.laterMovement later yields).observes.inOrder past.inOrder).2

end Journal

end TokenBridge
