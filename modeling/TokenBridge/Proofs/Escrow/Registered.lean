import TokenBridge.Proofs.Escrow.Accounts
/-!
What the registry says about escrow. Tokens are paired with assets both ways, native denominations as of this
chain and cw20 contracts as of Ethereum, and every transfer held is of an asset under whose name its token is
paired.
-/
namespace TokenBridge

open TokenBridge.Action

variable {s t u : Store} {block : Block} {r : Response} {order : Order} {e : Effect}
  {Used : Asset → Prop} {a b : Asset}

structure Registered (Used : Asset → Prop) (s : Store) : Prop where
  held : ∀ x ∈ s.held, Used x.asset
  used : ∀ k p, s.pairings.get? k = some p → Used p.asset
  ofAsset : ∀ name k, s.tokenOf.get? name = some k →
    ∃ p, s.pairings.get? k = some p ∧ p.asset.key = name
  ofNative : ∀ k p denom, s.pairings.get? k = some p → p.asset = .native denom →
    p.ofThisChain = true
  ofCw20 : ∀ k p contract, s.pairings.get? k = some p → p.asset = .cw20 contract →
    p.ofThisChain = false

theorem Registered.empty : Registered Used .empty where
  held _ inside := by cases inside
  used _ _ found := by cases found
  ofAsset _ _ found := by cases found
  ofNative _ _ _ found := by cases found
  ofCw20 _ _ _ found := by cases found

theorem Registered.keep (h : Registered Used s) (held : ∀ x ∈ t.held, x ∈ s.held)
    (tokenOf : t.tokenOf = s.tokenOf) (pairings : t.pairings = s.pairings) : Registered Used t where
  held x inside := h.held x (held x inside)
  used := by rw [pairings]; exact h.used
  ofAsset := by rw [tokenOf, pairings]; exact h.ofAsset
  ofNative := by rw [pairings]; exact h.ofNative
  ofCw20 := by rw [pairings]; exact h.ofCw20

theorem EscrowKept.registered (h : EscrowKept s t) (reg : Registered Used s) : Registered Used t :=
  reg.keep (fun x inside => by rw [← h.held]; exact inside) h.tokenOf h.pairings

theorem Exchanged.registered {out : List Transfer} (h : Exchanged [] out s t)
    (reg : Registered Used s) (books : BooksKept s t) : Registered Used t :=
  reg.keep (fun _ inside => heldBefore h.balance inside) books.tokenOf books.pairings

theorem Registry.pairRegistered {p : Pairing} (reg : Registered Used s) (used : Used p.asset)
    (free : pairingFault? s p.token p.asset = none)
    (native : ∀ denom, p.asset = .native denom → p.ofThisChain = true)
    (cw20 : ∀ contract, p.asset = .cw20 contract → p.ofThisChain = false) :
    Registered Used (pair p s) := by
  obtain ⟨missing, _⟩ := pairingFree free
  have split {k : Address} {q : Pairing} (found : (pair p s).pairings.get? k = some q) :
      q = p ∨ s.pairings.get? k = some q := by
    simp only [pair, SortedMap.getInsert] at found
    split at found
    · cases found
      exact .inl rfl
    · exact .inr found
  constructor
  case held => exact reg.held
  case used =>
    intro k q found
    rcases split found with rfl | old
    · exact used
    · exact reg.used k q old
  case ofAsset =>
    intro name k found
    simp only [pair, SortedMap.getInsert] at found ⊢
    split at found
    · rename_i same
      cases found
      exact ⟨p, by rw [if_pos rfl], same⟩
    · obtain ⟨q, paired, named⟩ := reg.ofAsset name k found
      refine ⟨q, ?_, named⟩
      rw [if_neg]
      · exact paired
      · intro same
        rw [same, paired] at missing
        cases missing
  case ofNative =>
    intro k q denom found isNative
    rcases split found with rfl | old
    · exact native denom isNative
    · exact reg.ofNative k q denom old isNative
  case ofCw20 =>
    intro k q contract found isCw20
    rcases split found with rfl | old
    · exact cw20 contract isCw20
    · exact reg.ofCw20 k q contract old isCw20

def Event.assets : Event → List Asset
  | .tokenDeployed denom .. => [.native denom]
  | _ => []

theorem Effected.registered {event : Event} (reg : Registered Used s)
    (assets : ∀ a ∈ event.assets, Used a) (effected : Effected s event e t) : Registered Used t := by
  cases effected with
  | idle kept _ _ => exact kept.registered reg
  | released => exact reg.keep (fun _ inside => inside) rfl rfl
  | paired free =>
    exact Registry.pairRegistered reg (assets _ (List.mem_singleton.2 rfl)) free
      (fun _ _ => rfl) (fun _ isCw20 => nomatch isCw20)
  | @executed _ _ b total u _ _ found sum left _ moved settled =>
    have between := left.registered reg moved.books
    cases settled with
    | unpaired => exact between
    | locked => exact between.keep (fun _ inside => inside) rfl rfl
    | burned => exact between

theorem Observing.passRegistered {view : StakeView} {os : List Observation} (h : Holding s)
    (reg : Registered Used s) (assets : ∀ o ∈ os, ∀ a ∈ o.claim.event.assets, Used a)
    (pass : Pass view block s os t) : Registered Used t := by
  induction pass with
  | rest s => exact reg
  | @observe s u t nonce fingerprint x e later _ _ _ effect _ ih =>
    have marked : EscrowKept s (mark nonce fingerprint x s) := markEscrow
    have first := marked.exchanged h
    have effected := takeEffectEffected first.holding effect
    have between := effected.registered (marked.registered reg) (assets _ (List.mem_cons_self ..))
    exact ih (effected.exchanged first.holding).1.holding between
      fun o found => assets o (List.mem_cons_of_mem _ found)

def Order.registers : Order → List Asset
  | .execute _ (.registerToken _ cw20) => [.cw20 ⟨cw20⟩]
  | _ => []

def Deed.assets (d : Deed) : List Asset :=
  d.order.brings.map Prod.fst ++ d.order.registers ++
    d.response.observations.flatMap fun o => o.claim.event.assets

theorem Asset.sameOrMixed (same : a.key = b.key) (usedA : Used a) (usedB : Used b) :
    a = b ∨ Used (.native b.key) ∧ Used (.cw20 ⟨b.key⟩) := by
  cases a with
  | native denom =>
    cases b with
    | native denom' => exact .inl (congrArg Asset.native same)
    | cw20 contract =>
      have names : denom = contract.name := same
      subst names
      exact .inr ⟨usedA, usedB⟩
  | cw20 contract =>
    cases b with
    | native denom =>
      have names : contract.name = denom := same
      subst names
      exact .inr ⟨usedB, usedA⟩
    | cw20 contract' => exact .inl (congrArg Asset.cw20 (Account.ext same))

theorem Deed.deployedUsed {os : List Observation} (answers : Observing.Answers r os)
    (assets : ∀ a ∈ (Deed.mk s block order r t).assets, Used a) :
    ∀ o ∈ os, ∀ a ∈ o.claim.event.assets, Used a := by
  intro o found a deploys
  refine assets a (List.mem_append_right _ (List.mem_flatMap.2 ⟨o, ?_, deploys⟩))
  show o ∈ r.observations
  rw [answers.observations]
  exact found

theorem Movement.keepsRegistered (h : Holding s) (reg : Registered Used s)
    (assets : ∀ a ∈ (Deed.mk s block order r t).assets, Used a)
    (moved : Movement block s order r t) : Registered Used t := by
  cases moved with
  | administered _ _ moved _ _ => exact moved.escrow.registered reg
  | reported _ after _ _ =>
    have kept := (Directory.reportMoves order.reports s).escrow
    rw [← after] at kept
    exact kept.registered reg
  | @entered x sender asset sent fee method brings _ _ _ entered _ after =>
    have exchanged := Pool.enterExchanged h entered
    rw [← after] at exchanged
    have usedAsset : Used asset := assets asset (by simp [Deed.assets, brings])
    subst after
    refine ⟨fun y inside => ?_, reg.used, reg.ofAsset, reg.ofNative, reg.ofCw20⟩
    rcases List.mem_cons.1 (exchanged.balance.subset inside) with rfl | old
    · rw [entered.inAsset]
      exact usedAsset
    · exact reg.held y old
  | @cancelled caller x total id _ here _ _ _ _ after =>
    have number := h.indexed.keyed id x here
    subst number after
    exact (Pool.removeExchanged h here).registered reg ⟨rfl, rfl, rfl⟩
  | assembled _ _ made _ _ =>
    exact (Batching.assembleExchanged h made).registered reg (Batching.assembleBooks made)
  | @registered caller written cw20 token contract order valid free after _ _ =>
    obtain ⟨_, unparked⟩ := Registry.unparkAllMoves token (Registry.parkedFor s token)
      (Registry.pair ⟨token, .cw20 contract, false⟩ s)
    have named : contract = ⟨cw20⟩ := Account.validateName valid
    have usedAsset : Used (.cw20 contract) := assets _ (by
      simp [Deed.assets, order, Order.registers, named])
    have pairedUp := Registry.pairRegistered (p := ⟨token, .cw20 contract, false⟩) reg usedAsset free
      (fun _ native => nomatch native) (fun _ _ => rfl)
    rw [after, unparked]
    exact pairedUp.keep (fun _ inside => inside) rfl rfl
  | @observed u v w os dissolved _ _ voted pass returned moved answers =>
    have first := voted.escrow.exchanged h
    have passed := Observing.passRegistered first.holding (voted.escrow.registered reg)
      (Deed.deployedUsed answers assets) pass
    have back := (Batching.dissolvesExchanged (Observing.passHolding first.holding pass) returned).1
    exact moved.escrow.registered (back.registered passed (Batching.dissolvesMove returned).books)

namespace Journal

variable {j : Journal}

def assets (j : Journal) : List Asset := j.deeds.flatMap Deed.assets

def NamesApart (j : Journal) : Prop :=
  ∀ denom contract, .native denom ∈ j.assets → .cw20 contract ∈ j.assets → denom ≠ contract.name

theorem NamesApart.told (apart : j.NamesApart) (usedA : a ∈ j.assets) (usedB : b ∈ j.assets)
    (same : a.key = b.key) : a = b :=
  (Asset.sameOrMixed same usedA usedB).resolve_right fun ⟨native, cw20⟩ => apart _ _ native cw20 rfl

theorem Run.registered (run : Run j) (assets : ∀ a ∈ j.assets, Used a) :
    Registered Used j.store := by
  revert assets
  refine Run.keeps ?setUp ?deed run
  case setUp =>
    intro block m r t yields _
    exact (Contract.setUpEscrow yields).1.registered .empty
  case deed =>
    intro j block order r t past ih later yields assets
    simp only [Journal.assets, List.flatMap_append, List.flatMap_cons, List.flatMap_nil,
      List.append_nil, List.mem_append] at assets
    have reg := ih fun a used => assets a (.inl used)
    exact (Chain.laterMovement later yields).keepsRegistered past.accounted.holding reg
      fun a used => assets a (.inr used)

end Journal

end TokenBridge
