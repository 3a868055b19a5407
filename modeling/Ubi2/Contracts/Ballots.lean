import Mathlib.Data.Finset.Dedup
import Mathlib.Data.Finset.Card
import Ubi2.Contracts.Presentation
import Ubi2.Contracts.SybilResistantVote

namespace Ubi2.Contracts.SybilResistantVote

open Ubi2.Lib Ubi2.Lib.Evm Ubi2.Lib.Encode Ubi2.Lib.Except
open PredicateVerifier (Imports PredicateAttestation Prover Spend Mirrors replayKey)
open ProofOfHumanity (Registry)

-- A vote that went through, with what stood behind it then.
structure Cast where
  tokenId : BitVec 256
  nullifier : BitVec 256
  caller : Address
  support : Bool
  att : PredicateAttestation
  signature : List Byte
  issuer : Address
  chainId : BitVec 256
deriving DecidableEq, Repr

def Cast.spend (c : Cast) : Spend :=
  .attestation c.att.subject c.att.consumer c.att.context c.att.nonce

-- A ballot with its votes, in their order.
structure Poll where
  ballot : State
  votes : List Cast

-- The contracts on the chain, at their addresses.
structure World (nft : Erc721 ProofOfHumanity.Error) (base : Ownable) where
  humanity : Address → Option (Registry nft base)
  verifiers : Address → Option (PredicateVerifier.World base)
  polls : Address → Option Poll

inductive Call (nft : Erc721 ProofOfHumanity.Error) (base : Ownable) where
  | deployHumanity (ownership : base.State) (issuer : Address)
  | deployVerifier (ownership : base.State) (issuer : Address)
  | deployBallot (poh predicateVerifier : Address) (requiredPredicate context : Bytes32)
  | humanity (call : ProofOfHumanity.Call nft base)
  | verifier (call : PredicateVerifier.Call base)
  | vote (tokenId : BitVec 256) (support : Bool) (att : PredicateAttestation)
      (signature : List Byte)

-- A call to an address, or the deployment of a contract at it.
structure Input (nft : Erc721 ProofOfHumanity.Error) (base : Ownable) where
  tx : Transaction
  provers : Address → Prover
  call : Call nft base

-- The hashes and the recovery that the two kinds of contract import.
structure Platform where
  poh : Imports
  verifier : Imports

variable {nft : Erc721 ProofOfHumanity.Error} {base : Ownable} {x : Platform}

namespace World

def empty (nft : Erc721 ProofOfHumanity.Error) (base : Ownable) : World nft base where
  humanity _ := none
  verifiers _ := none
  polls _ := none

def vacant (w : World nft base) (a : Address) : Bool :=
  (w.humanity a).isNone && (w.verifiers a).isNone && (w.polls a).isNone

def setHumanity (w : World nft base) (a : Address) (r : Registry nft base) : World nft base :=
  { w with humanity := Function.update w.humanity a (some r) }

def setVerifier (w : World nft base) (a : Address) (v : PredicateVerifier.World base) :
    World nft base :=
  { w with verifiers := Function.update w.verifiers a (some v) }

def setPoll (w : World nft base) (a : Address) (p : Poll) : World nft base :=
  { w with polls := Function.update w.polls a (some p) }

def vote (x : Platform) (w : World nft base) (env : Env) (tokenId : BitVec 256) (support : Bool)
    (att : PredicateAttestation) (signature : List Byte) : Option (World nft base) := do
  let p ← w.polls env.this
  let r ← w.humanity p.ballot.poh
  let v ← w.verifiers p.ballot.predicateVerifier
  let (ballot, verifier) ← (p.ballot.vote r.state v.state x.verifier env tokenId support att
    signature).toOption
  let c : Cast :=
    { tokenId, nullifier := (r.state.tokens tokenId).nullifier, caller := env.sender, support,
      att, signature, issuer := v.state.issuer, chainId := env.chainId }
  pure ((w.setVerifier p.ballot.predicateVerifier ⟨verifier, v.spent ++ [c.spend]⟩).setPoll
    env.this ⟨ballot, p.votes ++ [c]⟩)

-- The contracts after a call, unless it reverts.
def execute (x : Platform) (w : World nft base) (i : Input nft base) : Option (World nft base) :=
  let a := i.tx.this
  match i.call with
  | .deployHumanity ownership issuer => do
    let state ← (ProofOfHumanity.new nft ownership issuer).toOption
    if w.vacant a then some (w.setHumanity a ⟨state, []⟩) else none
  | .deployVerifier ownership issuer => do
    let state ← (PredicateVerifier.new ownership issuer).toOption
    if w.vacant a then some (w.setVerifier a ⟨state, []⟩) else none
  | .deployBallot poh predicateVerifier requiredPredicate context => do
    let ballot ← (new poh predicateVerifier requiredPredicate context).toOption
    if w.vacant a then some (w.setPoll a ⟨ballot, []⟩) else none
  | .humanity call => do
    let r ← w.humanity a
    let r' ← (r.execute x.poh i.tx.toEnv call).toOption
    pure (w.setHumanity a r')
  | .verifier call => do
    let v ← w.verifiers a
    pure (w.setVerifier a (v.call x.verifier ⟨i.tx, i.provers, call⟩))
  | .vote tokenId support att signature => w.vote x i.tx.toEnv tokenId support att signature

-- A call that reverts leaves everything as it was.
def call (x : Platform) (w : World nft base) (i : Input nft base) : World nft base :=
  (w.execute x i).getD w

end World

-- The chain after a sequence of calls from any senders, at any times.
def run (nft : Erc721 ProofOfHumanity.Error) (base : Ownable) (x : Platform)
    (calls : List (Input nft base)) : World nft base :=
  calls.foldl (World.call x) (World.empty nft base)

-- What a vote had to show for its ballot.
structure Cast.Fits (x : Platform) (a : Address) (ballot : State) (c : Cast) : Prop where
  caller : c.caller ≠ 0
  predicate : c.att.predicate = ballot.requiredPredicate
  context : c.att.context = ballot.context
  result : c.att.result = true
  consumer : c.att.consumer = a
  subject : c.att.subject = c.caller
  signer : x.verifier.recover (x.verifier.hashTypedDataV4 ballot.predicateVerifier c.chainId
    (PredicateVerifier.structHash x.verifier.keccak256 c.att)) c.signature = some c.issuer

-- The voter holds the token, and the token belongs to the nullifier.
structure Cast.Held (r : Registry nft base) (c : Cast) : Prop where
  minted : c.tokenId ≠ 0
  token : r.state.tokenOfNullifier c.nullifier = c.tokenId
  holder : r.state.holder c.tokenId = c.caller

-- The counters count the votes, a token has one vote, and every vote has its token and
-- its own entry among what the verifier has seen spent.
structure Poll.Sound (x : Platform) (w : World nft base) (a : Address) (p : Poll) : Prop where
  yes : p.ballot.yesVotes.toNat = p.votes.countP (·.support)
  no : p.ballot.noVotes.toNat = p.votes.countP (!·.support)
  voted : ∀ c ∈ p.votes, p.ballot.voted c.tokenId = true
  once : (p.votes.map Cast.tokenId).Nodup
  fits : ∀ c ∈ p.votes, c.Fits x a p.ballot
  backed : p.votes ≠ [] → ∃ r v, w.humanity p.ballot.poh = some r ∧
    w.verifiers p.ballot.predicateVerifier = some v ∧ (∀ c ∈ p.votes, c.Held r) ∧
    (p.votes.map Cast.spend).Sublist v.spent

namespace World

structure Sound (x : Platform) (w : World nft base) : Prop where
  humanity : ∀ a r, w.humanity a = some r → r.Sound
  verifiers : ∀ a v, w.verifiers a = some v → Mirrors x.verifier v
  polls : ∀ a p, w.polls a = some p → p.Sound x w a

-- No contract goes away, no token changes hands, and nothing spent comes back.
structure Grows (w w' : World nft base) : Prop where
  humanity : ∀ a r, w.humanity a = some r → ∃ r', w'.humanity a = some r' ∧ r.Extends r'
  verifiers : ∀ a v, w.verifiers a = some v →
    ∃ v', w'.verifiers a = some v' ∧ v.spent <+: v'.spent

theorem Grows.refl (w : World nft base) : w.Grows w :=
  ⟨fun _ r h => ⟨r, h, .refl r⟩, fun _ v h => ⟨v, h, List.prefix_rfl⟩⟩

theorem Grows.trans {w₁ w₂ w₃ : World nft base} (h : w₁.Grows w₂) (h' : w₂.Grows w₃) :
    w₁.Grows w₃ where
  humanity a r hr := by
    obtain ⟨r₂, hr₂, hextends⟩ := h.humanity a r hr
    obtain ⟨r₃, hr₃, hextends'⟩ := h'.humanity a r₂ hr₂
    exact ⟨r₃, hr₃, hextends.trans hextends'⟩
  verifiers a v hv := by
    obtain ⟨v₂, hv₂, hlonger⟩ := h.verifiers a v hv
    obtain ⟨v₃, hv₃, hlonger'⟩ := h'.verifiers a v₂ hv₂
    exact ⟨v₃, hv₃, hlonger.trans hlonger'⟩

end World

theorem Cast.Held.extends {r r' : Registry nft base} {c : Cast} (h : c.Held r)
    (hcaller : c.caller ≠ 0) (hextends : r.Extends r') : c.Held r' where
  minted := h.minted
  token := by
    rw [hextends.tokenOfNullifier, h.token]
    rw [h.token]
    exact h.minted
  holder := by
    rw [hextends.holder, h.holder]
    rw [h.holder]
    exact hcaller

theorem Poll.Sound.grow {w w' : World nft base} {a : Address} {p : Poll} (h : p.Sound x w a)
    (hgrows : w.Grows w') : p.Sound x w' a where
  yes := h.yes
  no := h.no
  voted := h.voted
  once := h.once
  fits := h.fits
  backed hne := by
    obtain ⟨r, v, hr, hv, hheld, hsublist⟩ := h.backed hne
    obtain ⟨r', hr', hextends⟩ := hgrows.humanity _ r hr
    obtain ⟨v', hv', hlonger⟩ := hgrows.verifiers _ v hv
    exact ⟨r', v', hr', hv', fun c hc => (hheld c hc).extends (h.fits c hc).caller hextends,
      hsublist.trans hlonger.sublist⟩

namespace World

variable {w w' : World nft base} {a : Address}

theorem Grows.sound (hgrows : w.Grows w') (hpolls : w'.polls = w.polls) (h : w.Sound x)
    (hhumanity : ∀ a r, w'.humanity a = some r → r.Sound)
    (hverifiers : ∀ a v, w'.verifiers a = some v → Mirrors x.verifier v) : w'.Sound x where
  humanity := hhumanity
  verifiers := hverifiers
  polls a p hp := by
    rw [hpolls] at hp
    exact (h.polls a p hp).grow hgrows

theorem grows_setHumanity {r' : Registry nft base}
    (hextends : ∀ r, w.humanity a = some r → r.Extends r') : w.Grows (w.setHumanity a r') where
  humanity b r hr := by
    by_cases hb : b = a
    · subst hb
      exact ⟨r', Function.update_self .., hextends r hr⟩
    · exact ⟨r, (Function.update_of_ne hb ..).trans hr, .refl r⟩
  verifiers _ v hv := ⟨v, hv, List.prefix_rfl⟩

theorem sound_setHumanity {r' : Registry nft base} (h : w.Sound x) (hr' : r'.Sound)
    (hextends : ∀ r, w.humanity a = some r → r.Extends r') :
    (w.setHumanity a r').Sound x := by
  refine (grows_setHumanity hextends).sound rfl h ?_ h.verifiers
  intro b r hr
  by_cases hb : b = a
  · subst hb
    cases (Function.update_self ..).symm.trans hr
    exact hr'
  · exact h.humanity b r ((Function.update_of_ne hb ..).symm.trans hr)

theorem grows_setVerifier {v' : PredicateVerifier.World base}
    (hlonger : ∀ v, w.verifiers a = some v → v.spent <+: v'.spent) :
    w.Grows (w.setVerifier a v') where
  humanity _ r hr := ⟨r, hr, .refl r⟩
  verifiers b v hv := by
    by_cases hb : b = a
    · subst hb
      exact ⟨v', Function.update_self .., hlonger v hv⟩
    · exact ⟨v, (Function.update_of_ne hb ..).trans hv, List.prefix_rfl⟩

theorem sound_setVerifier {v' : PredicateVerifier.World base} (h : w.Sound x)
    (hv' : Mirrors x.verifier v')
    (hlonger : ∀ v, w.verifiers a = some v → v.spent <+: v'.spent) :
    (w.setVerifier a v').Sound x := by
  refine (grows_setVerifier hlonger).sound rfl h h.humanity ?_
  intro b v hv
  by_cases hb : b = a
  · subst hb
    cases (Function.update_self ..).symm.trans hv
    exact hv'
  · exact h.verifiers b v ((Function.update_of_ne hb ..).symm.trans hv)

theorem grows_setPoll {p : Poll} : w.Grows (w.setPoll a p) where
  humanity _ r hr := ⟨r, hr, .refl r⟩
  verifiers _ v hv := ⟨v, hv, List.prefix_rfl⟩

theorem sound_setPoll {p : Poll} (h : w.Sound x) (hp : p.Sound x w a) :
    (w.setPoll a p).Sound x where
  humanity := h.humanity
  verifiers := h.verifiers
  polls b q hq := by
    by_cases hb : b = a
    · subst hb
      cases (Function.update_self ..).symm.trans hq
      exact hp.grow grows_setPoll
    · exact (h.polls b q ((Function.update_of_ne hb ..).symm.trans hq)).grow grows_setPoll

end World

theorem Poll.Sound.backing {w : World nft base} {a : Address} {p : Poll} (h : p.Sound x w a)
    {r : Registry nft base} {v : PredicateVerifier.World base}
    (hr : w.humanity p.ballot.poh = some r)
    (hv : w.verifiers p.ballot.predicateVerifier = some v) :
    (∀ c ∈ p.votes, c.Held r) ∧ (p.votes.map Cast.spend).Sublist v.spent := by
  by_cases hne : p.votes = []
  · simp [hne]
  · obtain ⟨r', v', hr', hv', hheld, hsublist⟩ := h.backed hne
    cases hr.symm.trans hr'
    cases hv.symm.trans hv'
    exact ⟨hheld, hsublist⟩

-- One more vote.
theorem Poll.Sound.vote {w : World nft base} {env : Env} {p : Poll}
    (h : p.Sound x w env.this) {r : Registry nft base} {v : PredicateVerifier.World base}
    (hr : w.humanity p.ballot.poh = some r)
    (hv : w.verifiers p.ballot.predicateVerifier = some v) (hsound : r.Sound)
    {tokenId : BitVec 256} {support : Bool} {att : PredicateAttestation} {signature : List Byte}
    {ballot : State} {verifier : PredicateVerifier.State base} {c : Cast}
    (hc : c = { tokenId, nullifier := (r.state.tokens tokenId).nullifier, caller := env.sender,
                support, att, signature, issuer := v.state.issuer, chainId := env.chainId })
    (hvotes : Votes p.ballot r.state v.state x.verifier env tokenId support att signature ballot
      verifier) :
    Poll.Sound x (w.setVerifier p.ballot.predicateVerifier ⟨verifier, v.spent ++ [c.spend]⟩)
      env.this ⟨ballot, p.votes ++ [c]⟩ := by
  obtain ⟨hheld, hsublist⟩ := h.backing hr hv
  have hcounts := hvotes.counts
  have hfits : c.Fits x env.this ballot := by
    subst hc
    exact ⟨hvotes.holder ▸ hvotes.minted, hvotes.predicate.trans hcounts.requiredPredicate.symm,
      hvotes.context.trans hcounts.context.symm, hvotes.result, hvotes.consumer, hvotes.subject,
      by rw [hcounts.predicateVerifier]; exact hvotes.signer⟩
  have hnew : c.Held r := by
    subst hc
    exact ⟨((hsound.numbered _).mp hvotes.minted).1, hsound.bound _ hvotes.minted, hvotes.holder⟩
  have hid : c.tokenId = tokenId := by rw [hc]
  have hsupport : c.support = support := by rw [hc]
  refine ⟨?yes, ?no, ?voted, ?once, ?fits, ?backed⟩
  case yes =>
    rw [hcounts.yesVotes, h.yes, List.countP_append, List.countP_singleton, hsupport]
    cases support <;> rfl
  case no =>
    rw [hcounts.noVotes, h.no, List.countP_append, List.countP_singleton, hsupport]
    cases support <;> rfl
  case voted =>
    intro c' hc'
    change ballot.voted c'.tokenId = true
    rw [hcounts.voted, Function.update_apply]
    rcases List.mem_append.mp hc' with hc' | hc'
    · rw [h.voted c' hc', ite_self]
    · rw [List.mem_singleton.mp hc', if_pos hid]
  case once =>
    -- The token has not voted, and every token of an earlier vote has.
    have hfirst : c.tokenId ∉ p.votes.map Cast.tokenId := by
      intro hmem
      obtain ⟨c', hc', heq⟩ := List.mem_map.mp hmem
      have hvoted := h.voted c' hc'
      rw [heq, hid, hvotes.first] at hvoted
      cases hvoted
    rw [List.map_append]
    exact List.nodup_append'.mpr ⟨h.once, List.nodup_singleton _, by simpa using hfirst⟩
  case fits =>
    intro c' hc'
    rcases List.mem_append.mp hc' with hc' | hc'
    · have hold := h.fits c' hc'
      exact ⟨hold.caller, hold.predicate.trans hcounts.requiredPredicate.symm,
        hold.context.trans hcounts.context.symm, hold.result, hold.consumer, hold.subject,
        by rw [hcounts.predicateVerifier]; exact hold.signer⟩
    · rw [List.mem_singleton.mp hc']
      exact hfits
  case backed =>
    intro _
    refine ⟨r, ⟨verifier, v.spent ++ [c.spend]⟩, ?_, ?_, ?_, ?_⟩
    · rw [hcounts.poh]
      exact hr
    · rw [hcounts.predicateVerifier]
      exact Function.update_self ..
    · intro c' hc'
      rcases List.mem_append.mp hc' with hc' | hc'
      · exact hheld c' hc'
      · rw [List.mem_singleton.mp hc']
        exact hnew
    · rw [List.map_append]
      exact hsublist.append (List.Sublist.refl _)

namespace World

variable {w w' : World nft base}

theorem vote_grows {env : Env} {tokenId : BitVec 256} {support : Bool}
    {att : PredicateAttestation} {signature : List Byte} (h : w.Sound x)
    (hvote : w.vote x env tokenId support att signature = some w') :
    w'.Sound x ∧ w.Grows w' := by
  simp only [World.vote, Option.bind_eq_bind, Option.bind_eq_some_iff, toOption_eq_some,
    Prod.exists, pure, Option.some.injEq] at hvote
  obtain ⟨p, hp, r, hr, v, hv, ballot, verifier, hballot, rfl⟩ := hvote
  have hvotes := vote_spec hballot
  have hpoll := (h.polls _ p hp).vote hr hv (h.humanity _ r hr) rfl hvotes
  have hmirrors := h.verifiers _ v hv
  have hlonger : ∀ l v', w.verifiers p.ballot.predicateVerifier = some v' →
      v'.spent <+: v.spent ++ l := by
    intro l v' hv'
    cases hv.symm.trans hv'
    exact List.prefix_append _ _
  constructor
  · refine sound_setPoll (sound_setVerifier h (hmirrors.spend hvotes.unspent ?_) ?_) hpoll
    · exact congrArg PredicateVerifier.State.consumed hvotes.spent
    · exact hlonger _
  · exact (grows_setVerifier (hlonger _)).trans grows_setPoll

theorem sound_empty : (empty nft base).Sound x where
  humanity _ _ h := by cases h
  verifiers _ _ h := by cases h
  polls _ _ h := by cases h

theorem vacant_iff {a : Address} :
    w.vacant a = true ↔ w.humanity a = none ∧ w.verifiers a = none ∧ w.polls a = none := by
  simp only [vacant, Bool.and_eq_true, Option.isNone_iff_eq_none, and_assoc]

theorem execute_grows (hnft : nft.Lawful) {i : Input nft base} (h : w.Sound x)
    (hexecute : w.execute x i = some w') : w'.Sound x ∧ w.Grows w' := by
  obtain ⟨tx, provers, call⟩ := i
  cases call with
  | deployHumanity ownership issuer =>
    simp only [execute, Option.bind_eq_bind, Option.bind_eq_some_iff, toOption_eq_some,
      ProofOfHumanity.new, bind_eq_ok, pure_eq_ok, Option.ite_none_right_eq_some,
      Option.some.injEq, vacant_iff] at hexecute
    obtain ⟨state, ⟨-, -, rfl⟩, ⟨hvacant, -, -⟩, rfl⟩ := hexecute
    have hnone : ∀ r, w.humanity tx.this = some r →
        r.Extends ⟨ProofOfHumanity.initial nft ownership issuer, []⟩ := by
      intro r hr
      rw [hvacant] at hr
      cases hr
    exact ⟨sound_setHumanity h (Registry.sound_initial hnft ownership issuer) hnone,
      grows_setHumanity hnone⟩
  | deployVerifier ownership issuer =>
    simp only [execute, Option.bind_eq_bind, Option.bind_eq_some_iff, toOption_eq_some,
      PredicateVerifier.new, bind_eq_ok, pure_eq_ok, Option.ite_none_right_eq_some,
      Option.some.injEq, vacant_iff] at hexecute
    obtain ⟨state, ⟨-, -, rfl⟩, ⟨-, hvacant, -⟩, rfl⟩ := hexecute
    have hnone : ∀ v, w.verifiers tx.this = some v → v.spent <+: [] := by
      intro v hv
      rw [hvacant] at hv
      cases hv
    exact ⟨sound_setVerifier h (Mirrors.initial x.verifier ownership issuer) hnone,
      grows_setVerifier hnone⟩
  | deployBallot poh predicateVerifier requiredPredicate context =>
    simp only [execute, Option.bind_eq_bind, Option.bind_eq_some_iff, toOption_eq_some,
      new, bind_eq_ok, pure_eq_ok, Option.ite_none_right_eq_some, Option.some.injEq] at hexecute
    obtain ⟨ballot, ⟨-, -, rfl⟩, -, rfl⟩ := hexecute
    refine ⟨sound_setPoll h ⟨rfl, rfl, ?_, List.nodup_nil, ?_, fun hne => absurd rfl hne⟩,
      grows_setPoll⟩
    · intro c hc
      cases hc
    · intro c hc
      cases hc
  | humanity call =>
    simp only [execute, Option.bind_eq_bind, Option.bind_eq_some_iff, toOption_eq_some, pure,
      Option.some.injEq] at hexecute
    obtain ⟨r, hr, r', hr', rfl⟩ := hexecute
    obtain ⟨hsound, hextends⟩ :=
      (h.humanity _ r hr).execute hnft tx.sender_ne_zero hr'
    have hsame : ∀ r₁, w.humanity tx.this = some r₁ → r₁.Extends r' := by
      intro r₁ hr₁
      cases hr.symm.trans hr₁
      exact hextends
    exact ⟨sound_setHumanity h hsound hsame, grows_setHumanity hsame⟩
  | verifier call =>
    simp only [execute, Option.bind_eq_bind, Option.bind_eq_some_iff, pure,
      Option.some.injEq] at hexecute
    obtain ⟨v, hv, rfl⟩ := hexecute
    have hsame : ∀ v₁, w.verifiers tx.this = some v₁ →
        v₁.spent <+: (v.call x.verifier ⟨tx, provers, call⟩).spent := by
      intro v₁ hv₁
      cases hv.symm.trans hv₁
      exact v.spent_prefix_call x.verifier ⟨tx, provers, call⟩
    exact ⟨sound_setVerifier h ((h.verifiers _ v hv).call _) hsame, grows_setVerifier hsame⟩
  | vote tokenId support att signature => exact vote_grows h hexecute

theorem call_grows (hnft : nft.Lawful) (i : Input nft base) (h : w.Sound x) :
    (w.call x i).Sound x ∧ w.Grows (w.call x i) := by
  rw [World.call]
  cases hexecute : w.execute x i with
  | none => exact ⟨h, .refl w⟩
  | some w' => exact execute_grows hnft h hexecute

theorem run_grows (hnft : nft.Lawful) (h : w.Sound x) (calls : List (Input nft base)) :
    (calls.foldl (World.call x) w).Sound x ∧ w.Grows (calls.foldl (World.call x) w) := by
  refine Run.foldl_invariant (P := fun w' => w'.Sound x ∧ w.Grows w') ?_ calls ⟨h, .refl w⟩
  rintro w' i ⟨hsound, hgrows⟩
  obtain ⟨hsound', hgrows'⟩ := call_grows hnft i hsound
  exact ⟨hsound', hgrows.trans hgrows'⟩

end World

-- The tally of a ballot is the number of nullifiers that voted; each voted once, through
-- its own token and its own attestation.
structure Poll.Counted (x : Platform) (w : World nft base) (a : Address) (p : Poll) : Prop where
  tally : p.ballot.yesVotes.toNat + p.ballot.noVotes.toNat =
    (p.votes.map Cast.nullifier).toFinset.card
  yes : p.ballot.yesVotes.toNat = p.votes.countP (·.support)
  no : p.ballot.noVotes.toNat = p.votes.countP (!·.support)
  once : (p.votes.map Cast.nullifier).Nodup
  own : (p.votes.map fun c => replayKey x.verifier.keccak256 c.att).Nodup
  fits : ∀ c ∈ p.votes, c.Fits x a p.ballot
  held : ∀ c ∈ p.votes, ∃ r, w.humanity p.ballot.poh = some r ∧ c.Held r
  spent : ∀ c ∈ p.votes, ∃ v, w.verifiers p.ballot.predicateVerifier = some v ∧
    v.state.consumed (replayKey x.verifier.keccak256 c.att) = true

namespace Poll.Sound

variable {w : World nft base} {a a' : Address} {p p' : Poll}

theorem nodup_nullifiers (h : p.Sound x w a) : (p.votes.map Cast.nullifier).Nodup := by
  by_cases hne : p.votes = []
  · rw [hne]
    exact List.nodup_nil
  · obtain ⟨r, -, -, -, hheld, -⟩ := h.backed hne
    have htokens : p.votes.map Cast.tokenId =
        (p.votes.map Cast.nullifier).map r.state.tokenOfNullifier := by
      rw [List.map_map]
      exact List.map_congr_left fun c hc => (hheld c hc).token.symm
    exact (htokens ▸ h.once).of_map _

theorem nodup_keys (hw : w.Sound x) (h : p.Sound x w a) :
    (p.votes.map fun c => replayKey x.verifier.keccak256 c.att).Nodup := by
  by_cases hne : p.votes = []
  · rw [hne]
    exact List.nodup_nil
  · obtain ⟨-, v, -, hv, -, hsublist⟩ := h.backed hne
    have hkeys := (hw.verifiers _ v hv).nodup.sublist (hsublist.map _)
    rwa [List.map_map] at hkeys

theorem tally (h : p.Sound x w a) :
    p.ballot.yesVotes.toNat + p.ballot.noVotes.toNat =
      (p.votes.map Cast.nullifier).toFinset.card := by
  have hlength : p.votes.length =
      p.votes.countP (·.support) + p.votes.countP (!·.support) := by
    rw [@List.length_eq_countP_add_countP _ Cast.support p.votes]
    simp
  rw [List.toFinset_card_of_nodup h.nodup_nullifiers, List.length_map, h.yes, h.no]
  exact hlength.symm

theorem consumed (hw : w.Sound x) (h : p.Sound x w a) {c : Cast} (hc : c ∈ p.votes) :
    ∃ v, w.verifiers p.ballot.predicateVerifier = some v ∧
      v.state.consumed (replayKey x.verifier.keccak256 c.att) = true := by
  obtain ⟨-, v, -, hv, -, hsublist⟩ := h.backed (List.ne_nil_of_mem hc)
  have hspent : c.spend ∈ v.spent := hsublist.subset (List.mem_map_of_mem hc)
  have hkey : replayKey x.verifier.keccak256 c.att ∈
      v.spent.map (Spend.key x.verifier.keccak256) := List.mem_map.mpr ⟨c.spend, hspent, rfl⟩
  exact ⟨v, hv, ((hw.verifiers _ v hv).consumed _).mpr hkey⟩

theorem counted (hw : w.Sound x) (h : p.Sound x w a) : p.Counted x w a where
  tally := h.tally
  yes := h.yes
  no := h.no
  once := h.nodup_nullifiers
  own := h.nodup_keys hw
  fits := h.fits
  held c hc := by
    obtain ⟨r, -, hr, -, hheld, -⟩ := h.backed (List.ne_nil_of_mem hc)
    exact ⟨r, hr, hheld c hc⟩
  spent _ hc := h.consumed hw hc

-- No two votes at one verifier share an attestation, whichever ballots they are for.
theorem key_inj (hw : w.Sound x) (h : p.Sound x w a) (h' : p'.Sound x w a')
    (hverifier : p.ballot.predicateVerifier = p'.ballot.predicateVerifier) {c c' : Cast}
    (hc : c ∈ p.votes) (hc' : c' ∈ p'.votes)
    (hkey : replayKey x.verifier.keccak256 c.att = replayKey x.verifier.keccak256 c'.att) :
    a = a' := by
  obtain ⟨-, v, -, hv, -, hsublist⟩ := h.backed (List.ne_nil_of_mem hc)
  obtain ⟨-, v', -, hv', -, hsublist'⟩ := h'.backed (List.ne_nil_of_mem hc')
  cases hv.symm.trans (hverifier ▸ hv')
  have hspend : c.spend = c'.spend :=
    List.inj_on_of_nodup_map (hw.verifiers _ v hv).nodup
      (hsublist.subset (List.mem_map_of_mem hc)) (hsublist'.subset (List.mem_map_of_mem hc')) hkey
  have hconsumer : c.att.consumer = c'.att.consumer := by
    simp only [Cast.spend, Spend.attestation.injEq] at hspend
    exact hspend.2.1
  rw [← (h.fits c hc).consumer, hconsumer, (h'.fits c' hc').consumer]

end Poll.Sound

theorem one_human_one_vote (hnft : nft.Lawful) (x : Platform) (calls : List (Input nft base)) :
    let w := run nft base x calls
    (∀ a r, w.humanity a = some r → r.OneEach) ∧
    (∀ more, w.Grows (run nft base x (calls ++ more))) ∧
    (∀ a p, w.polls a = some p → p.Counted x w a) ∧
    ∀ a a' p p', w.polls a = some p → w.polls a' = some p' →
      p.ballot.predicateVerifier = p'.ballot.predicateVerifier →
      ∀ c ∈ p.votes, ∀ c' ∈ p'.votes,
        replayKey x.verifier.keccak256 c.att = replayKey x.verifier.keccak256 c'.att →
        a = a' ∧ c = c' := by
  intro w
  have hw : w.Sound x := (World.run_grows hnft World.sound_empty calls).1
  refine ⟨fun a r hr => (hw.humanity a r hr).oneEach, ?_, ?_, ?_⟩
  · intro more
    rw [run, List.foldl_append]
    exact (World.run_grows hnft hw more).2
  · intro a p hp
    exact (hw.polls a p hp).counted hw
  · intro a a' p p' hp hp' hverifier c hc c' hc' hkey
    obtain rfl := (hw.polls a p hp).key_inj hw (hw.polls a' p' hp') hverifier hc hc' hkey
    cases hp.symm.trans hp'
    exact ⟨rfl, List.inj_on_of_nodup_map ((hw.polls a p hp).nodup_keys hw) hc hc' hkey⟩

-- A token base without approvals, whose one entry point transfers from a holder to a
-- receiver.
namespace Plain

abbrev Holders := BitVec 256 → Address

def update : Transfer Holders ProofOfHumanity.Error := fun s receiver id auth => do
  revertIf (auth ≠ 0 ∧ s id ≠ auth) .ERC721Reverted
  pure (Function.update s id receiver, s id)

def mint (transfer : Transfer Holders ProofOfHumanity.Error) (s : Holders) (receiver : Address)
    (id : BitVec 256) : Except ProofOfHumanity.Error Holders := do
  revertIf (receiver = 0) .ERC721Reverted
  let (s, previous) ← transfer s receiver id 0
  revertIf (previous ≠ 0) .ERC721Reverted
  pure s

def transferFrom (transfer : Transfer Holders ProofOfHumanity.Error) (s : Holders)
    (sender : Address) (c : Address × Address × BitVec 256) :
    Except ProofOfHumanity.Error Holders := do
  revertIf (c.2.1 = 0) .ERC721Reverted
  let (s, previous) ← transfer s c.2.1 c.2.2 sender
  revertIf (previous ≠ c.1) .ERC721Reverted
  pure s

variable {transfer : Transfer Holders ProofOfHumanity.Error} {s s' : Holders}
  {receiver auth sender previous : Address} {id : BitVec 256}

theorem update_eq_ok : update s receiver id auth = .ok (s', previous) ↔
    (auth ≠ 0 → s id = auth) ∧ s' = Function.update s id receiver ∧ previous = s id := by
  simp only [update, bind_eq_ok, revertIf_eq_ok, exists_const, pure_eq_ok, Prod.mk.injEq,
    not_and, not_not, eq_comm (a := s'), eq_comm (a := previous)]

theorem mint_ok (h : mint transfer s receiver id = .ok s') :
    transfer s receiver id 0 = .ok (s', 0) := by
  simp only [mint, bind_eq_ok, revertIf_eq_ok, exists_const, pure_eq_ok, Prod.exists,
    not_not] at h
  obtain ⟨-, s, previous, htransfer, rfl, rfl⟩ := h
  exact htransfer

theorem transferFrom_ok {c : Address × Address × BitVec 256}
    (h : transferFrom transfer s sender c = .ok s') :
    c.2.1 ≠ 0 ∧ ∃ r, transfer s c.2.1 c.2.2 sender = .ok r := by
  simp only [transferFrom, bind_eq_ok, revertIf_eq_ok, exists_const] at h
  obtain ⟨hreceiver, r, htransfer, -⟩ := h
  exact ⟨hreceiver, r, htransfer⟩

end Plain

def plain : Erc721 ProofOfHumanity.Error where
  State := Plain.Holders
  Call := Address × Address × BitVec 256
  empty _ := 0
  ownerOf s id := s id
  update := Plain.update
  mint := Plain.mint
  call := Plain.transferFrom

theorem plain_lawful : plain.Lawful where
  empty _ := rfl
  moves h := by
    obtain ⟨-, rfl, rfl⟩ := Plain.update_eq_ok.mp h
    exact ⟨rfl, rfl⟩
  authorized h hauth hnone :=
    hauth (((Plain.update_eq_ok.mp h).1 hauth).symm.trans hnone)
  mints h := Plain.mint_ok h
  calls h := by
    obtain ⟨hreceiver, r, htransfer⟩ := Plain.transferFrom_ok h
    exact .inr ⟨_, _, r, hreceiver, htransfer⟩

def sampleTx (contract sender : Address) (h : sender ≠ 0) : Transaction :=
  ⟨⟨contract, sender, 7776000, 1, fun _ => 0, fun _ => 0⟩, h⟩

-- One signer for everything, whose signatures are 65 bytes long.
def samplePlatform : Platform :=
  let imports : Imports :=
    { PredicateVerifier.sampleImports with
      recover := fun _ signature => if signature.length = 65 then some 7 else none }
  ⟨imports, imports⟩

-- A token at 1, a verifier at 2 and a ballot at 3. A relayer mints for 5, who fails to
-- give the token away, votes, and fails to vote again.
def sampleCalls : List (Input plain PredicateVerifier.ownerless) :=
  let att : PredicateAttestation := ⟨3, 4, 9, true, 5, 1, 0⟩
  let signature := List.replicate 65 1
  let call := fun contract sender h c =>
    ⟨sampleTx contract sender h, fun _ => ⟨fun _ _ _ _ => none, fun _ _ => none⟩, c⟩
  [call 1 6 (by decide) (.deployHumanity () 7),
    call 2 6 (by decide) (.deployVerifier () 7),
    call 3 6 (by decide) (.deployBallot 1 2 9 4),
    call 1 6 (by decide) (.humanity (.mintWithVoucher ⟨5, 11, 1⟩ signature)),
    call 1 5 (by decide) (.humanity (.erc721 (5, 6, 1))),
    call 3 5 (by decide) (.vote 1 true att signature),
    call 3 5 (by decide) (.vote 1 true { att with nonce := 1 } signature)]

theorem one_human_one_vote_sample :
    ∃ p, (run plain PredicateVerifier.ownerless samplePlatform sampleCalls).polls 3 = some p ∧
      p.votes.map Cast.nullifier = [11] ∧
      p.Counted samplePlatform (run plain PredicateVerifier.ownerless samplePlatform
        sampleCalls) 3 := by
  have hvotes : ((run plain PredicateVerifier.ownerless samplePlatform sampleCalls).polls 3).map
      (fun p => p.votes.map Cast.nullifier) = some [11] := by
    decide +kernel
  obtain ⟨p, hp, hnullifiers⟩ := Option.map_eq_some_iff.mp hvotes
  exact ⟨p, hp, hnullifiers,
    (one_human_one_vote plain_lawful samplePlatform sampleCalls).2.2.1 3 p hp⟩

end Ubi2.Contracts.SybilResistantVote
