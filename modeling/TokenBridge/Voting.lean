import TokenBridge.Action
/-!
Votes for claims. Votes for one content at one nonce make up one attestation, and every validator votes
at its nonces in order, without a gap. Up to the last observed nonce only the observed content takes
votes.
-/
namespace TokenBridge.Voting

/-- A validator that has never voted stands one behind the last observed nonce, so that it may still
vote there. -/
def lastNonce (s : Store) (validator : Account) : UInt64 :=
  (s.lastVoted.get? validator).getD (Counter.cappedSub s.observedNonce 1)

def anyAt (s : Store) (nonce : UInt64) : Bool := s.attestations.entries.any fun e => e.1.1 == nonce

def contentRefusal? (s : Store) (policy : ConflictPolicy) (nonce : UInt64)
    (existing : Option Attestation) : Option Refusal :=
  if Counter.below s.observedNonce nonce then
    if existing.isNone && policy = .reject && anyAt s nonce then some (.conflicting nonce) else none
  else if existing.any Attestation.observed then none
  else some (.againstObserved nonce)

def attestation (s : Store) (policy : ConflictPolicy) (validator : Account) (claim : Claim)
    (height : UInt64) : Except Halt Attestation :=
  let nonce := claim.nonce
  let existing := s.attestations.get? (nonce, claim.fingerprint)
  if existing.any fun a => a.votes.contains validator then
    .error (.refused (.duplicateVote validator nonce))
  else match Counter.next? (lastNonce s validator) with
    | none => .error .overflow
    | some expected =>
      if nonce ≠ expected then .error (.refused (.wrongNonce expected nonce))
      else match contentRefusal? s policy nonce existing with
        | some why => .error (.refused why)
        | none =>
          let a := existing.getD { claim, votes := [], observed := false, height }
          .ok { a with votes := a.votes ++ [validator] }

def cast (policy : ConflictPolicy) (validator : Account) (claim : Claim) (height : UInt64) :
    Action Attestation := do
  let s ← get
  let a ← Action.ofExcept (attestation s policy validator claim height)
  set { s with
    attestations := s.attestations.insert (claim.nonce, claim.fingerprint) a
    lastVoted := s.lastVoted.insert validator claim.nonce }
  return a

end TokenBridge.Voting
