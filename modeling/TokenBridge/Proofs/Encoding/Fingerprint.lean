import TokenBridge.Proofs.Encoding.Records
import TokenBridge.Proofs.Voting.TwoThirds
/-!
What a fingerprint is taken of. The bytes of a claim say which claim it is, so votes for different contents meet
under one fingerprint only where the hash collides.
-/
namespace TokenBridge

open TokenBridge.Action
open Encoding (Field wordSplit fieldSplit fieldsSplit recordSplit)

def Event.Sized : Event → Prop
  | .deposit _ _ _ receiver => (Text.utf8 receiver).length < UInt64.size
  | .batchExecuted .. => True
  | .callExecuted scope _ => scope.bytes.length < UInt64.size
  | .tokenDeployed denom _ name symbol _ =>
    (Text.utf8 denom).length < UInt64.size ∧ (Text.utf8 name).length < UInt64.size ∧
      (Text.utf8 symbol).length < UInt64.size
  | .signersUpdated _ members _ _ => members.length < UInt64.size

namespace Event

inductive Alike : Event → Event → Prop where
  | deposits {token amount sender receiver token' amount' sender' receiver'} :
      Alike (.deposit token amount sender receiver) (.deposit token' amount' sender' receiver')
  | batches {nonce token nonce' token'} : Alike (.batchExecuted nonce token) (.batchExecuted nonce' token')
  | calls {scope nonce scope' nonce'} : Alike (.callExecuted scope nonce) (.callExecuted scope' nonce')
  | tokens {denom token name symbol decimals denom' token' name' symbol' decimals'} :
      Alike (.tokenDeployed denom token name symbol decimals)
        (.tokenDeployed denom' token' name' symbol' decimals')
  | signers {nonce members amount token nonce' members' amount' token'} :
      Alike (.signersUpdated nonce members amount token) (.signersUpdated nonce' members' amount' token')

def memberCount : Event → Nat
  | signersUpdated _ members _ _ => members.length
  | _ => 0

end Event

namespace Claim

variable {c c' : Claim} {e e' : Event} {ms ms' : List Signer} {fs gs : List Field}

theorem alikeOfTag (same : c.tag = c'.tag) : c.event.Alike c'.event := by
  unfold tag at same
  cases first : c.event <;> cases second : c'.event <;> simp [first, second] at same <;> constructor

theorem tagFits (c : Claim) : (Text.utf8 c.tag).length < 256 ^ 32 := by
  unfold tag
  split <;> decide

theorem numberFits (n : UInt64) : (Field.number n.toNat).Fits :=
  Nat.lt_trans n.toNat_lt (by decide)

theorem amountFits (a : Amount) : (Field.number a.val).Fits :=
  Nat.lt_trans a.bound (by decide)

theorem lengthFits {n : Nat} (sized : n < UInt64.size) : n < 256 ^ 32 :=
  Nat.lt_trans sized (by decide)

theorem memberFieldsFit (ms : List Signer) : ∀ f ∈ ms.flatMap memberFields, f.Fits := by
  intro f inside
  obtain ⟨m, _, inside⟩ := List.mem_flatMap.1 inside
  simp only [memberFields, List.mem_cons, List.not_mem_nil, or_false] at inside
  rcases inside with rfl | rfl
  · trivial
  · exact numberFits m.power

theorem eventFieldsFit (sized : e.Sized) : ∀ f ∈ eventFields e, f.Fits := by
  cases e with
  | deposit token amount sender receiver =>
    simp only [eventFields, List.forall_mem_cons]
    exact ⟨trivial, amountFits amount, trivial, lengthFits sized, nofun⟩
  | batchExecuted nonce token =>
    simp only [eventFields, List.forall_mem_cons]
    exact ⟨numberFits nonce, trivial, nofun⟩
  | callExecuted scope nonce =>
    simp only [eventFields, List.forall_mem_cons]
    exact ⟨lengthFits sized, numberFits nonce, nofun⟩
  | tokenDeployed denom token name symbol decimals =>
    obtain ⟨denomSized, nameSized, symbolSized⟩ := sized
    have small : (Field.number decimals.toNat).Fits := Nat.lt_trans decimals.toNat_lt (by decide)
    simp only [eventFields, List.forall_mem_cons]
    exact ⟨lengthFits denomSized, trivial, lengthFits nameSized, lengthFits symbolSized, small, nofun⟩
  | signersUpdated nonce members amount token =>
    simp only [eventFields, List.forall_mem_append, List.forall_mem_cons]
    exact ⟨⟨⟨numberFits nonce, lengthFits sized, nofun⟩, memberFieldsFit members⟩,
      amountFits amount, trivial, nofun⟩

theorem fieldsFit (sized : c.event.Sized) : ∀ f ∈ c.fields, f.Fits := by
  simp only [fields, List.forall_mem_cons]
  exact ⟨numberFits c.nonce, numberFits c.ethHeight, eventFieldsFit sized⟩

theorem memberKinds (count : ms.length = ms'.length) :
    (ms.flatMap memberFields).map Field.kind = (ms'.flatMap memberFields).map Field.kind := by
  induction ms generalizing ms' with
  | nil =>
    cases ms' with
    | nil => rfl
    | cons => cases count
  | cons m ms ih =>
    cases ms' with
    | nil => cases count
    | cons m' ms' =>
      simp only [List.flatMap_cons, List.map_append, ih (Nat.succ.inj count)]
      rfl

theorem sameKinds (alike : c.event.Alike c'.event)
    (count : c.event.memberCount = c'.event.memberCount) :
    c.fields.map Field.kind = c'.fields.map Field.kind := by
  unfold fields
  generalize c.event = e, c'.event = e' at alike count
  -- Only the number of members varies the kinds of fields under one tag.
  cases alike with
  | signers =>
    simp only [eventFields, List.map_cons, List.map_append, memberKinds count]
    rfl
  | deposits | batches | calls | tokens => rfl

theorem sameCount (sized : c.event.Sized) (sized' : c'.event.Sized) (alike : c.event.Alike c'.event)
    (same : c.fields.flatMap Field.encode = c'.fields.flatMap Field.encode) :
    c.event.memberCount = c'.event.memberCount := by
  unfold fields at same
  generalize c.event = e, c'.event = e' at alike same sized sized' ⊢
  cases alike with
  | @signers nonce members amount token nonce' members' amount' token' =>
    -- The number of members is the fourth field, so it is read before the first member.
    simp only [eventFields, List.flatMap_cons, List.cons_append, List.nil_append] at same
    obtain ⟨_, same⟩ := fieldSplit (numberFits c.nonce) (numberFits c'.nonce) rfl same
    obtain ⟨_, same⟩ := fieldSplit (numberFits c.ethHeight) (numberFits c'.ethHeight) rfl same
    obtain ⟨_, same⟩ := fieldSplit (numberFits nonce) (numberFits nonce') rfl same
    obtain ⟨count, _⟩ := wordSplit (lengthFits sized) (lengthFits sized') same
    exact count
  | deposits | batches | calls | tokens => rfl

theorem memberFieldsApart (count : ms.length = ms'.length)
    (same : ms.flatMap memberFields ++ fs = ms'.flatMap memberFields ++ gs) : ms = ms' ∧ fs = gs := by
  induction ms generalizing ms' with
  | nil =>
    cases ms' with
    | nil => exact ⟨rfl, same⟩
    | cons => cases count
  | cons m ms ih =>
    cases ms' with
    | nil => cases count
    | cons m' ms' =>
      simp only [List.flatMap_cons, memberFields, List.cons_append, List.nil_append,
        List.cons.injEq, Field.address.injEq, Field.number.injEq, UInt64.toNat_inj] at same
      obtain ⟨address, power, rest⟩ := same
      obtain ⟨rfl, back⟩ := ih (Nat.succ.inj count) rest
      refine ⟨?_, back⟩
      cases m
      cases m'
      simp_all

theorem fieldsTell (alike : c.event.Alike c'.event) (same : c.fields = c'.fields) : c = c' := by
  obtain ⟨nonce, ethHeight, event⟩ := c
  obtain ⟨nonce', ethHeight', event'⟩ := c'
  simp only [fields, List.cons.injEq, Field.number.injEq, UInt64.toNat_inj] at same
  obtain ⟨rfl, rfl, same⟩ := same
  refine congrArg (Claim.mk nonce ethHeight) ?_
  cases alike with
  | signers =>
    simp only [eventFields, List.cons_append, List.nil_append, List.cons.injEq, Field.number.injEq,
      UInt64.toNat_inj] at same
    obtain ⟨rfl, count, rest⟩ := same
    obtain ⟨rfl, last⟩ := memberFieldsApart count rest
    simp only [List.cons.injEq, Field.number.injEq, Field.address.injEq, and_true] at last
    rw [Amount.ext last.1, last.2]
  | deposits =>
    simp only [eventFields, List.cons.injEq, Field.number.injEq, Field.address.injEq, Field.text.injEq,
      and_true] at same
    obtain ⟨rfl, amount, rfl, rfl⟩ := same
    rw [Amount.ext amount]
  | batches =>
    simp only [eventFields, List.cons.injEq, Field.number.injEq, UInt64.toNat_inj, Field.address.injEq,
      and_true] at same
    obtain ⟨rfl, rfl⟩ := same
    rfl
  | @calls scope _ scope' _ =>
    simp only [eventFields, List.cons.injEq, Field.number.injEq, UInt64.toNat_inj, Field.octets.injEq,
      and_true] at same
    obtain ⟨content, rfl⟩ := same
    cases scope
    cases scope'
    cases content
    rfl
  | tokens =>
    simp only [eventFields, List.cons.injEq, Field.number.injEq, UInt8.toNat_inj, Field.address.injEq,
      Field.text.injEq, and_true] at same
    obtain ⟨rfl, rfl, rfl, rfl, rfl⟩ := same
    rfl

theorem preimageTells (sized : c.event.Sized) (sized' : c'.event.Sized)
    (same : c.preimage = c'.preimage) : c = c' := by
  obtain ⟨tags, encoded⟩ := recordSplit (tagFits c) (tagFits c') same
  have alike := alikeOfTag tags
  have kinds := sameKinds alike (sameCount sized sized' alike encoded)
  rw [← List.append_nil (c.fields.flatMap _), ← List.append_nil (c'.fields.flatMap _)] at encoded
  exact fieldsTell alike (fieldsSplit (fieldsFit sized) (fieldsFit sized') kinds encoded).1

end Claim

def Order.claim? : Order → Option Claim
  | .execute _ (.submitClaim c) => some c
  | _ => none

def Deed.Votes (d : Deed) (c : Claim) (nonce : UInt64) (fingerprint : Word) : Prop :=
  d.order.claim? = some c ∧
    ∃ v ∈ d.after.voters nonce fingerprint, v ∉ d.before.voters nonce fingerprint

instance (d : Deed) (c : Claim) (nonce : UInt64) (fingerprint : Word) :
    Decidable (d.Votes c nonce fingerprint) :=
  inferInstanceAs (Decidable (_ ∧ _))

namespace Journal

variable {j : Journal} {c c' : Claim} {n : UInt64} {p : Word}

theorem Run.votesUnder (run : Run j) {d : Deed} (done : d ∈ j.deeds) (votes : d.Votes c n p) :
    c.nonce = n ∧ c.fingerprint = p := by
  obtain ⟨submits, v, voted, new⟩ := votes
  rcases run.points d done with ⟨m, yields⟩ | ⟨i, _, _, before, _, _, yields⟩
  · rw [(Contract.setUpPoll yields).voters] at voted
    cases voted
  · obtain ⟨_, block, order, r, t⟩ := d
    subst before
    cases order with
    | setUp | migrate => cases submits
    | execute caller message =>
      cases message with
      | submitClaim claim =>
        cases submits
        obtain ⟨validator, _, _, u, os, _, _, _, cast, pass, _⟩ := Observing.submitYields yields
        rw [(Observing.passPoll pass).voters] at voted
        obtain ⟨_, here⟩ := ((Voting.castMem cast).1 voted).resolve_left new
        exact here
      | _ => cases submits

theorem contentsTold :
    (∀ c c' : Claim, c.event.Sized → c'.event.Sized → (c.preimage = c'.preimage ↔ c = c')) ∧
    ∀ j, Run j → ∀ d ∈ j.deeds, ∀ e ∈ j.deeds, ∀ c c' n p, c.event.Sized → c'.event.Sized →
      d.Votes c n p → e.Votes c' n p →
      c = c' ∨ (c.preimage ≠ c'.preimage ∧ Keccak.hash c.preimage = Keccak.hash c'.preimage) := by
  refine ⟨fun c c' sized sized' => ⟨Claim.preimageTells sized sized', fun same => by rw [same]⟩, ?_⟩
  intro j run d done e done' c c' n p sized sized' votes votes'
  by_cases same : c = c'
  · exact .inl same
  · refine .inr ⟨fun bytes => same (Claim.preimageTells sized sized' bytes), ?_⟩
    exact (run.votesUnder done votes).2.trans (run.votesUnder done' votes').2.symm

def dividedClaim : Claim := ⟨1, 50, .tokenDeployed "atom" .zero "AtomA" "TM" 6⟩

theorem dividedApart :
    electedClaim.preimage ≠ dividedClaim.preimage ∧
    ∃ d ∈ elected.deeds, ∃ e ∈ elected.deeds, d.order ≠ e.order ∧
      d.Votes electedClaim 1 electedClaim.fingerprint ∧
      e.Votes electedClaim 1 electedClaim.fingerprint ∧
      (electedClaim = electedClaim ∨ (electedClaim.preimage ≠ electedClaim.preimage ∧
        Keccak.hash electedClaim.preimage = Keccak.hash electedClaim.preimage)) := by
  have sized : electedClaim.event.Sized := ⟨by decide, by decide, by decide⟩
  have sizedDivided : dividedClaim.event.Sized := ⟨by decide, by decide, by decide⟩
  refine ⟨fun same => ?_, ?_⟩
  · exact absurd ((contentsTold.1 _ _ sized sizedDivided).1 same) (by decide)
  · obtain ⟨d, done, e, done', apart, votes, votes'⟩ : ∃ d ∈ elected.deeds, ∃ e ∈ elected.deeds,
        d.order ≠ e.order ∧ d.Votes electedClaim 1 electedClaim.fingerprint ∧
        e.Votes electedClaim 1 electedClaim.fingerprint := by
      decide +kernel
    exact ⟨d, done, e, done', apart, votes, votes',
      contentsTold.2 elected electedRun d done e done' _ _ _ _ sized sized votes votes'⟩

end Journal

end TokenBridge
