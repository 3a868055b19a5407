import Ubi2.Node.Driver
import Ubi2.Rpc.Agreement
import Ubi2.Rpc.Finality

namespace Ubi2.Node

open Ubi2.Runtime Ubi2.Lib Ubi2.Lib.Encode Ubi2.Rpc Ubi2.Network Ubi2.Exec

-- Blocks that a chain can be extended by, one after another: each is authentic, new to the
-- chain and applies to it.
inductive Extends (host : NodeHost) (validatorOverride : Option Address) :
    Chain → List WireBlock → Chain → Prop where
  | nil (chain : Chain) : Extends host validatorOverride chain [] chain
  | cons {chain chain' last : Chain} {b : WireBlock} {produced : Block} {bs : List WireBlock} :
    shallowVerify host b → chain.knowsBlock (b.hash host) = false →
    chain.validateAndApplyBlock host b validatorOverride = some (.ok produced, chain') →
    Extends host validatorOverride (chain'.cacheRawTxs host b.rawTxs) bs last →
    Extends host validatorOverride chain (b :: bs) last

def requestTo (peer : PeerId) : NetCmd → Option GetBlocks
  | .RequestBlocks p request => if p = peer then some request else none
  | _ => none

-- The requests for blocks that a driver sent to a peer after its first so many commands.
def requestsSince (d : NetDriver) (taken : Nat) (peer : PeerId) : List GetBlocks :=
  (d.sent.drop taken).filterMap (requestTo peer)

-- What a peer answers a request with.
def answer (server : NetDriver) (from_ : PeerId) (request : GetBlocks) : List WireBlock :=
  match (server.onSyncRequest from_ request).sent.getLast? with
  | some (.RespondBlocks _ blocks) => blocks
  | _ => []

-- A range of blocks is asked for as it should be: from just above the head, not empty and
-- no longer than a batch.
def ProperRange (head : Nat) (request : GetBlocks) : Prop :=
  request.from_ = head + 1 ∧ request.from_ ≤ request.to_ ∧
    request.to_ < request.from_ + SYNC_MAX_BATCH

-- The chain of the server goes on from the local one: the blocks up to the local head are
-- known, and those up to the tip extend it.
structure Ahead (host : NodeHost) (server : NetDriver) (peerTip : Nat)
    (validatorOverride : Option Address) (chain last : Chain) : Prop where
  shared : ∀ b ∈ server.wireBlocks 1 chain.head.number, chain.knowsBlock (b.hash host) = true
  rest : Extends host validatorOverride chain
    (server.wireBlocks (chain.head.number + 1) peerTip) last

-- The range leaves no gap above the head, and is no longer than a batch.
structure Linked (head : Nat) (request : GetBlocks) : Prop where
  pos : 1 ≤ request.from_
  joins : request.from_ ≤ head + 1
  batch : request.to_ < request.from_ + SYNC_MAX_BATCH

section
variable {host : NodeHost} {validatorOverride : Option Address}
variable {chain chain' last : Chain} {bs bs' : List WireBlock}

theorem Extends.append {mid : Chain} (h : Extends host validatorOverride chain bs mid)
    (h' : Extends host validatorOverride mid bs' last) :
    Extends host validatorOverride chain (bs ++ bs') last := by
  induction h with
  | nil chain => exact h'
  | cons hverify hnew happly hrest ih => exact .cons hverify hnew happly (ih h')

theorem Extends.split (h : Extends host validatorOverride chain (bs ++ bs') last) :
    ∃ mid, Extends host validatorOverride chain bs mid ∧
      Extends host validatorOverride mid bs' last := by
  induction bs generalizing chain with
  | nil => exact ⟨chain, .nil chain, h⟩
  | cons b bs ih =>
    cases h with
    | cons hverify hnew happly hrest =>
      obtain ⟨mid, hbs, hbs'⟩ := ih hrest
      exact ⟨mid, .cons hverify hnew happly hbs, hbs'⟩

theorem head_of_applied {b : WireBlock} {produced : Block}
    (h : chain.validateAndApplyBlock host b validatorOverride = some (.ok produced, chain')) :
    chain'.head.number = chain.head.number + 1 ∧ b.number = chain.head.number + 1 := by
  have happlied := validateAndApplyBlock_ok h
  have hhead : chain'.head = produced := by simp [Chain.head, Inner.head, happlied.blocks]
  have hnumber : produced.number = b.number := by rw [happlied.header]
  exact ⟨by rw [hhead, hnumber, happlied.above], happlied.above⟩

theorem Extends.head (h : Extends host validatorOverride chain bs last) :
    last.head.number = chain.head.number + bs.length := by
  induction h with
  | nil chain => rfl
  | @cons chain chain' last b produced bs hverify hnew happly hrest ih =>
    have hcache : (chain'.cacheRawTxs host b.rawTxs).head = chain'.head := rfl
    rw [ih, hcache, (head_of_applied happly).1, List.length_cons]
    omega

theorem knowsBlock_of_applied {b : WireBlock} {produced : Block} {hash : Hash}
    (h : chain.validateAndApplyBlock host b validatorOverride = some (.ok produced, chain'))
    (hknown : b.hash host = hash ∨ chain.knowsBlock hash = true) :
    chain'.knowsBlock hash = true := by
  have happlied := validateAndApplyBlock_ok h
  have hhash : produced.hash = b.hash host := by rw [happlied.header]
  obtain ⟨e, hr, -, -⟩ | ⟨pending, m, produced', hr, -, -, -, -, -, rfl⟩ :=
    validateAndApplyBlock_cases h
  · cases hr
  cases hr
  have hput : ((chain.inner.blocksByHash.put (produced.hash, chain.inner.blocks.length)).get
      hash).isSome = true := by
    rw [Table.get_put]
    split_ifs with heq
    · rfl
    · rcases hknown with hb | hold
      · exact absurd (hhash.trans hb) heq
      · exact hold
  exact hput

-- What is known stays known, and the blocks that extend the chain become known.
theorem Extends.knows {hash : Hash} (h : Extends host validatorOverride chain bs last)
    (hknown : chain.knowsBlock hash = true ∨ ∃ b ∈ bs, b.hash host = hash) :
    last.knowsBlock hash = true := by
  induction h with
  | nil chain =>
    rcases hknown with hold | ⟨b, hb, -⟩
    · exact hold
    · cases hb
  | @cons chain chain' last b produced bs hverify hnew happly hrest ih =>
    have hnext : b.hash host = hash ∨ chain.knowsBlock hash = true →
        (chain'.cacheRawTxs host b.rawTxs).knowsBlock hash = true := by
      intro hknown
      have hafter : chain'.knowsBlock hash = true := knowsBlock_of_applied happly hknown
      exact hafter
    rcases hknown with hold | ⟨x, hx, hhash⟩
    · exact ih (Or.inl (hnext (Or.inr hold)))
    · rcases List.mem_cons.mp hx with rfl | hx
      · exact ih (Or.inl (hnext (Or.inl hhash)))
      · exact ih (Or.inr ⟨x, hx, hhash⟩)

-- Known blocks at the front of a response are passed over.
theorem applySyncBlocks_of_known (now : Nat) (from_ : PeerId) {d : NetDriver}
    (hknown : ∀ b ∈ bs, d.chain.knowsBlock (b.hash host) = true) :
    NetDriver.applySyncBlocks host now from_ (bs ++ bs') false d =
      NetDriver.applySyncBlocks host now from_ bs' false d := by
  induction bs with
  | nil => rfl
  | cons b bs ih =>
    rw [List.forall_mem_cons] at hknown
    rw [List.cons_append, NetDriver.applySyncBlocks, if_pos hknown.1]
    exact ih hknown.2

-- A response that extends the chain is applied whole.
theorem applySyncBlocks_of_extends (now : Nat) (from_ : PeerId) {d : NetDriver}
    (h : Extends host validatorOverride chain bs last) (hchain : d.chain = chain)
    (hoverride : d.validatorOverride = validatorOverride) :
    NetDriver.applySyncBlocks host now from_ bs false d =
      some (false, { d with chain := last }) := by
  induction h generalizing d with
  | nil chain =>
    subst hchain
    rfl
  | @cons chain chain' last b produced bs hverify hnew happly hrest ih =>
    subst hchain hoverride
    have hnext : d.applyWireBlock host b =
        some (.ok (), { d with chain := chain'.cacheRawTxs host b.rawTxs }) := by
      rw [NetDriver.applyWireBlock, happly]
    have habove : b.number = d.chain.tip.1 + 1 := (head_of_applied happly).2
    rw [NetDriver.applySyncBlocks, if_neg (by simp [hnew]), if_neg (by simp [hverify]),
      if_pos ⟨rfl, habove⟩, hnext]
    exact ih rfl rfl

end

section
variable {host : NodeHost} {d : NetDriver} {server : NetDriver} {peer : PeerId}

-- The next batch toward a tip.
def nextRange (head peerTip : Nat) : GetBlocks := ⟨head + 1, min peerTip (head + SYNC_MAX_BATCH)⟩

theorem properRange_nextRange {head peerTip : Nat} (h : head < peerTip) :
    ProperRange head (nextRange head peerTip) := by
  have hbatch : 0 < SYNC_MAX_BATCH := by decide
  refine ⟨rfl, ?_, ?_⟩
  · show head + 1 ≤ min peerTip (head + SYNC_MAX_BATCH)
    exact Nat.le_min.mpr ⟨h, by omega⟩
  · have hlast : min peerTip (head + SYNC_MAX_BATCH) ≤ head + SYNC_MAX_BATCH :=
      Nat.min_le_right _ _
    have hnext : (nextRange head peerTip).from_ = head + 1 := rfl
    have hto : (nextRange head peerTip).to_ = min peerTip (head + SYNC_MAX_BATCH) := rfl
    omega

-- The tip is pulled toward when it is ahead, plausible and not on its way.
theorem maybeSync_eq {peerTip : Nat} (hbehind : d.chain.head.number < peerTip)
    (hnear : peerTip ≤ d.chain.head.number + SYNC_MAX_LOOKAHEAD)
    (hfree : d.syncInFlightTo < peerTip) :
    d.maybeSync peer peerTip =
      { d with syncInFlightTo := (nextRange d.chain.head.number peerTip).to_ }.send
        (.RequestBlocks peer (nextRange d.chain.head.number peerTip)) := by
  have hbatch : d.chain.tip.1 + 1 + SYNC_MAX_BATCH - 1 =
      d.chain.head.number + SYNC_MAX_BATCH := by
    rw [Nat.add_right_comm, Nat.add_sub_cancel]
    rfl
  have hbehind : ¬ peerTip ≤ d.chain.tip.1 := not_le.mpr hbehind
  have hnear : ¬ d.chain.tip.1 + SYNC_MAX_LOOKAHEAD < peerTip := not_lt.mpr hnear
  rw [NetDriver.maybeSync]
  dsimp only
  rw [if_neg hbehind, if_neg hnear, if_neg (not_le.mpr hfree), hbatch]
  rfl

theorem maybeSync_at_tip {peerTip : Nat} (h : peerTip ≤ d.chain.head.number) :
    d.maybeSync peer peerTip = d := by
  rw [NetDriver.maybeSync]
  exact if_pos h

theorem maybeSync_too_far {peerTip : Nat}
    (h : d.chain.head.number + SYNC_MAX_LOOKAHEAD < peerTip) : d.maybeSync peer peerTip = d := by
  have hbehind : ¬ peerTip ≤ d.chain.tip.1 :=
    not_le.mpr (Nat.lt_of_le_of_lt (Nat.le_add_right _ _) h)
  rw [NetDriver.maybeSync]
  dsimp only
  rw [if_neg hbehind]
  exact if_pos h

-- A server that is at the tip answers a range of a batch at most in full.
theorem answer_eq {from_ : PeerId} {request : GetBlocks} {head peerTip : Nat}
    (h : Linked head request) (hserver : server.chain.head.number = peerTip) :
    answer server from_ request =
      server.wireBlocks request.from_ (min request.to_ peerTip) := by
  obtain ⟨hpos, -, hbatch⟩ := h
  have hstart : max request.from_ 1 = request.from_ := by omega
  have hend : min (min request.to_ peerTip) (request.from_ + (SYNC_MAX_BATCH - 1)) =
      min request.to_ peerTip := by
    simp only [SYNC_MAX_BATCH] at hbatch ⊢
    omega
  simp only [answer, NetDriver.onSyncRequest, NetDriver.send, List.getLast?_concat, Chain.tip,
    hserver, hstart, hend]

theorem wireBlocks_append {start mid last : Nat} (hstart : start ≤ mid + 1) (hmid : mid ≤ last) :
    server.wireBlocks start mid ++ server.wireBlocks (mid + 1) last =
      server.wireBlocks start last := by
  have hrange : List.range' start (mid + 1 - start) ++
      List.range' (start + (mid + 1 - start)) (last + 1 - (mid + 1)) =
        List.range' start (mid + 1 - start + (last + 1 - (mid + 1))) := List.range'_append_1
  rw [show start + (mid + 1 - start) = mid + 1 by omega,
    show mid + 1 - start + (last + 1 - (mid + 1)) = last + 1 - start by omega] at hrange
  rw [NetDriver.wireBlocks, NetDriver.wireBlocks, NetDriver.wireBlocks, ← hrange,
    List.filterMap_append]

theorem wireBlocks_of_lt {start last : Nat} (h : last < start) :
    server.wireBlocks start last = [] := by
  rw [NetDriver.wireBlocks, Nat.sub_eq_zero_of_le h]
  rfl

theorem wireBlocks_subset {start start' last last' : Nat} (hstart : start' ≤ start)
    (hlast : last ≤ last') : server.wireBlocks start last ⊆ server.wireBlocks start' last' := by
  intro b hb
  obtain ⟨h, hh, hblock⟩ := List.mem_filterMap.mp hb
  refine List.mem_filterMap.mpr ⟨h, ?_, hblock⟩
  rw [List.mem_range'_1] at hh ⊢
  omega

-- Past genesis the validators have been seeded.
theorem ensureEpochValidatorsSeeded_of_pos {chain : Chain} (h : 0 < chain.head.number) :
    chain.ensureEpochValidatorsSeeded = chain := by
  have hseed : seedEpochValidators chain.head.number chain.inner.state = chain.inner.state := by
    rw [seedEpochValidators, if_neg (by omega)]
  rw [Chain.ensureEpochValidatorsSeeded, hseed]

theorem chain_publishConsensusStatus {now : Nat} (h : 0 < d.chain.head.number) :
    (d.publishConsensusStatus now).chain = d.chain := by
  rw [NetDriver.publishConsensusStatus]
  cases d.validatorOverride with
  | some a => rfl
  | none => exact ensureEpochValidatorsSeeded_of_pos h

theorem known_setEntry {tip : Nat × Hash} {entry : PeerEntry}
    (h : (d.peers.get peer).bind (fun p => p.2.tip) = some tip)
    (hentry : entry.tip = (d.entry peer).tip) :
    ((d.setEntry peer entry).peers.get peer).bind (fun p => p.2.tip) = some tip := by
  obtain ⟨p, hget, htip⟩ := Option.bind_eq_some_iff.mp h
  have hput : (d.setEntry peer entry).peers.get peer = some (peer, entry) :=
    Table.get_put_self d.peers (peer, entry)
  rw [hput, Option.bind_some, hentry, NetDriver.entry, hget]
  exact htip

theorem modifyEntry_of_known {tip : Nat × Hash} {f : PeerEntry → PeerEntry}
    (h : (d.peers.get peer).bind (fun p => p.2.tip) = some tip) :
    d.modifyEntry peer f = d.setEntry peer (f (d.entry peer)) := by
  obtain ⟨p, hget, -⟩ := Option.bind_eq_some_iff.mp h
  rw [NetDriver.modifyEntry, NetDriver.entry, hget]
  rfl

-- The requests of a driver that only greets and asks for one range more.
theorem requestsSince_append {d' : NetDriver} {cmds : List NetCmd}
    (h : d'.sent = d.sent ++ cmds) :
    requestsSince d' d.sent.length peer = cmds.filterMap (requestTo peer) := by
  rw [requestsSince, h, List.drop_left]

theorem chaseTip_of_known {tip : Nat × Hash}
    (h : (d.peers.get peer).bind (fun p => p.2.tip) = some tip) :
    d.chaseTip peer = d.maybeSync peer tip.1 := by
  rw [NetDriver.chaseTip, h]

-- A well formed chain serves every block up to its head.
theorem length_wireBlocks (start : Nat) {last : Nat} (hserver : WellFormed host server.chain)
    (hlast : last ≤ server.chain.head.number) :
    (server.wireBlocks start last).length = last + 1 - start := by
  have hall : (server.wireBlocks start last).length =
      (List.range' start (last + 1 - start)).length := by
    rw [NetDriver.wireBlocks, List.filterMap_length_eq_length]
    intro h hh
    have hrange := List.mem_range'_1.mp hh
    have hlt : h < server.chain.inner.blocks.length := by
      rw [hserver.length]
      omega
    simp [Chain.blockAt, hlt]
  rw [hall, List.length_range']

theorem maybeSync_keeps (peer : PeerId) (peerTip : Nat) :
    (d.maybeSync peer peerTip).chain = d.chain ∧
      (d.maybeSync peer peerTip).validatorOverride = d.validatorOverride ∧
      (d.maybeSync peer peerTip).peers = d.peers := by
  rw [NetDriver.maybeSync]
  dsimp only
  split_ifs <;> exact ⟨rfl, rfl, rfl⟩

-- The blocks up to some height of the server's chain are applied to the local one.
theorem Ahead.advance {validatorOverride : Option Address} {chain last : Chain} {peerTip m : Nat}
    (h : Ahead host server peerTip validatorOverride chain last)
    (hwf : WellFormed host server.chain) (hserver : server.chain.head.number = peerTip)
    (hlow : chain.head.number ≤ m) (hhigh : m ≤ peerTip) :
    ∃ mid, Extends host validatorOverride chain
        (server.wireBlocks (chain.head.number + 1) m) mid ∧
      mid.head.number = m ∧ Ahead host server peerTip validatorOverride mid last := by
  obtain ⟨hshared, hrest⟩ := h
  have hjoin : server.wireBlocks 1 chain.head.number ++
      server.wireBlocks (chain.head.number + 1) m = server.wireBlocks 1 m :=
    wireBlocks_append (Nat.le_add_left 1 _) hlow
  rw [← wireBlocks_append (Nat.add_le_add_right hlow 1) hhigh] at hrest
  obtain ⟨mid, hmid, hrest⟩ := hrest.split
  have hhead : mid.head.number = m := by
    rw [hmid.head, length_wireBlocks _ hwf (hserver ▸ hhigh)]
    omega
  refine ⟨mid, hmid, hhead, fun b hb => ?_, by rw [hhead]; exact hrest⟩
  rw [hhead, ← hjoin, List.mem_append] at hb
  refine hmid.knows ?_
  rcases hb with hb | hb
  · exact Or.inl (hshared b hb)
  · exact Or.inr ⟨b, hb, rfl⟩

-- What a driver that syncs from a peer is at, with the idle answers it has counted at most.
structure Pulls (host : NodeHost) (server : NetDriver) (peer : PeerId) (tip : Nat × Hash)
    (last : Chain) (idle : Nat) (d : NetDriver) : Prop where
  ahead : Ahead host server tip.1 d.validatorOverride d.chain last
  within : d.chain.head.number ≤ tip.1
  known : (d.peers.get peer).bind (fun p => p.2.tip) = some tip
  counted : (d.entry peer).syncNoProgress.toNat ≤ idle

theorem entry_setEntry (entry : PeerEntry) : (d.setEntry peer entry).entry peer = entry := by
  have hput : (d.setEntry peer entry).peers.get peer = some (peer, entry) :=
    Table.get_put_self d.peers (peer, entry)
  rw [NetDriver.entry, hput]
  rfl

-- Moving on after a batch: the driver greets with its new tip, forgets the idle answers and
-- pulls on toward the tip of the peer.
theorem onSyncProgress_eq (host : NodeHost) (d : NetDriver) (now : Nat) {tip : Nat × Hash}
    (hpos : 0 < d.chain.head.number)
    (hknown : (d.peers.get peer).bind (fun p => p.2.tip) = some tip) :
    ∃ d₁ : NetDriver, d.onSyncProgress host now peer = d₁.maybeSync peer tip.1 ∧
      d₁.chain = d.chain ∧ d₁.validatorOverride = d.validatorOverride ∧
      d₁.syncInFlightTo = d.syncInFlightTo ∧
      (d₁.peers.get peer).bind (fun p => p.2.tip) = some tip ∧
      (d₁.entry peer).syncNoProgress = 0#32 ∧
      ∃ hello, d₁.sent = d.sent ++ [.UpdateHello hello] := by
  have hreset : ((d.modifyEntry peer fun e => { e with syncNoProgress := 0#32 }).peers.get
      peer).bind (fun p => p.2.tip) = some tip := by
    rw [modifyEntry_of_known hknown]
    exact known_setEntry hknown rfl
  refine ⟨_, chaseTip_of_known hreset, ?_⟩
  rw [modifyEntry_of_known hknown] at hreset ⊢
  have hentry : ((d.setEntry peer { d.entry peer with syncNoProgress := 0#32 }).entry
      peer).syncNoProgress = 0#32 := by rw [entry_setEntry]
  exact ⟨chain_publishConsensusStatus hpos, rfl, rfl, hreset, hentry, _, rfl⟩

-- An answer that brings nothing is counted, and the driver pulls on while the count is low.
theorem onSyncIdle_eq {tip : Nat × Hash} {idle : Nat}
    (hknown : (d.peers.get peer).bind (fun p => p.2.tip) = some tip)
    (hcounted : (d.entry peer).syncNoProgress.toNat ≤ idle)
    (hidle : idle + 1 < SYNC_MAX_NO_PROGRESS_ROUNDS.toNat) :
    ∃ d₁ : NetDriver, d.onSyncIdle peer false = d₁.maybeSync peer tip.1 ∧
      d₁.chain = d.chain ∧ d₁.validatorOverride = d.validatorOverride ∧
      d₁.syncInFlightTo = d.syncInFlightTo ∧
      (d₁.peers.get peer).bind (fun p => p.2.tip) = some tip ∧
      (d₁.entry peer).syncNoProgress.toNat ≤ idle + 1 ∧ d₁.sent = d.sent := by
  obtain ⟨rounds, hrounds⟩ : ∃ rounds, rounds = Word.satAdd (d.entry peer).syncNoProgress 1#32 :=
    ⟨_, rfl⟩
  have hcount : rounds.toNat ≤ idle + 1 := by
    rw [hrounds, Word.toNat_satAdd]
    have hone : (1#32).toNat = 1 := rfl
    omega
  have hset : ((d.setEntry peer { d.entry peer with syncNoProgress := rounds }).peers.get
      peer).bind (fun p => p.2.tip) = some tip := known_setEntry hknown rfl
  refine ⟨d.setEntry peer { d.entry peer with syncNoProgress := rounds }, ?_, rfl, rfl, rfl, hset,
    ?_, rfl⟩
  · rw [NetDriver.onSyncIdle, ← hrounds]
    have hlow : ¬ SYNC_MAX_NO_PROGRESS_ROUNDS ≤ rounds := by
      rw [BitVec.le_def]
      omega
    dsimp only
    rw [if_neg hlow, if_neg Bool.false_ne_true, chaseTip_of_known hset]
  · rw [entry_setEntry]
    exact hcount

-- The answer to an open range: the head moves up to the end of the range or the tip, where
-- that is above it, and else the answer is idle. The driver pulls on.
theorem onSyncResponse_of_pulls (now : Nat) {tip : Nat × Hash} {last : Chain} {idle : Nat}
    {request : GetBlocks} (h : Pulls host server peer tip last idle d)
    (hwf : WellFormed host server.chain) (hserver : server.chain.head.number = tip.1)
    (hlinked : Linked d.chain.head.number request)
    (hbrings : d.chain.head.number < min request.to_ tip.1 ∨
      idle + 1 < SYNC_MAX_NO_PROGRESS_ROUNDS.toNat) :
    ∃ (d₁ : NetDriver) (cmds : List NetCmd),
      d.onSyncResponse host now peer (answer server d.localPeer request) =
        some (d₁.maybeSync peer tip.1) ∧
      Pulls host server peer tip last
        (if d.chain.head.number < min request.to_ tip.1 then 0 else idle + 1) d₁ ∧
      d₁.chain.head.number = max d.chain.head.number (min request.to_ tip.1) ∧
      d₁.syncInFlightTo = 0 ∧ d₁.sent = d.sent ++ cmds ∧
      cmds.filterMap (requestTo peer) = [] := by
  obtain ⟨hahead, hwithin, hknown, hcounted⟩ := h
  obtain ⟨k, hk⟩ : ∃ k, k = min request.to_ tip.1 := ⟨_, rfl⟩
  have hjoins := hlinked.joins
  have hpos := hlinked.pos
  -- the blocks of the answer that are known, and those above the head
  obtain ⟨old, hold⟩ : ∃ old, old = server.wireBlocks request.from_ (min d.chain.head.number k) :=
    ⟨_, rfl⟩
  have hblocks : answer server d.localPeer request =
      old ++ server.wireBlocks (d.chain.head.number + 1) k := by
    rw [answer_eq hlinked hserver, ← hk, hold]
    by_cases hlow : k ≤ d.chain.head.number
    · rw [Nat.min_eq_right hlow, wireBlocks_of_lt (Nat.lt_succ_of_le hlow), List.append_nil]
    · rw [Nat.min_eq_left (Nat.le_of_not_le hlow), wireBlocks_append hjoins (Nat.le_of_not_le hlow)]
  have hshared : ∀ b ∈ old, d.chain.knowsBlock (b.hash host) = true := by
    intro b hb
    rw [hold] at hb
    exact hahead.shared b (wireBlocks_subset hpos (Nat.min_le_left _ _) hb)
  have hmarked : ((d.markPeerAlive now peer).peers.get peer).bind (fun p => p.2.tip) = some tip :=
    known_setEntry hknown rfl
  have hcounted' : ((d.markPeerAlive now peer).entry peer).syncNoProgress.toNat ≤ idle := by
    rw [NetDriver.markPeerAlive, entry_setEntry]
    exact hcounted
  rw [← hk] at hbrings ⊢
  by_cases hup : d.chain.head.number < k
  · obtain ⟨mid, hextends, hhead, hahead'⟩ :=
      hahead.advance hwf hserver hup.le (hk ▸ Nat.min_le_right _ _)
    have happly := applySyncBlocks_of_extends now peer (d := d.markPeerAlive now peer) hextends
      rfl rfl
    rw [← applySyncBlocks_of_known (d := d.markPeerAlive now peer) now peer hshared,
      ← hblocks] at happly
    obtain ⟨d₁, hprogress, hchain, hoverride, hflight, hknown₁, hreset, hello, hsent⟩ :=
      onSyncProgress_eq host
        { d.markPeerAlive now peer with chain := mid, syncInFlightTo := 0 } now
        (by rw [hhead]; omega) hmarked
    have hrise : (d.markPeerAlive now peer).chain.tip.1 < mid.tip.1 := by
      rw [show mid.tip.1 = k from hhead]
      exact hup
    refine ⟨d₁, [.UpdateHello hello], ?_, ⟨?_, ?_, hknown₁, ?_⟩, ?_, hflight, hsent, rfl⟩
    · rw [NetDriver.onSyncResponse]
      simp only [happly]
      rw [if_pos hrise, hprogress]
    · rw [hoverride, hchain]
      exact hahead'
    · rw [hchain, hhead, hk]
      exact Nat.min_le_right _ _
    · rw [if_pos hup, hreset]
      exact le_rfl
    · rw [hchain, hhead, Nat.max_eq_right hup.le]
  · have hnone : server.wireBlocks (d.chain.head.number + 1) k = [] := wireBlocks_of_lt (by omega)
    rw [hnone] at hblocks
    have happly : NetDriver.applySyncBlocks host now peer (old ++ []) false
        (d.markPeerAlive now peer) = some (false, d.markPeerAlive now peer) :=
      applySyncBlocks_of_known (d := d.markPeerAlive now peer) now peer hshared
    rw [← hblocks] at happly
    obtain ⟨d₁, hidle, hchain, hoverride, hflight, hknown₁, hcounted₁, hsent⟩ :=
      onSyncIdle_eq (d := { d.markPeerAlive now peer with syncInFlightTo := 0 }) hmarked
        hcounted' (hbrings.resolve_left hup)
    refine ⟨d₁, [], ?_, ⟨?_, ?_, hknown₁, ?_⟩, ?_, hflight, ?_, rfl⟩
    · rw [NetDriver.onSyncResponse]
      simp only [happly]
      rw [if_neg (Nat.lt_irrefl _), hidle]
    · rw [hoverride, hchain]
      exact hahead
    · rw [hchain]
      exact hwithin
    · rw [if_neg hup]
      exact hcounted₁
    · rw [hchain, Nat.max_eq_left (Nat.le_of_not_lt hup)]
      rfl
    · rw [hsent, List.append_nil]
      rfl

-- What a driver with nothing in flight asks a peer for that is at the tip.
def nextPulls (head peerTip : Nat) : List GetBlocks :=
  if head < peerTip ∧ peerTip ≤ head + SYNC_MAX_LOOKAHEAD then [nextRange head peerTip] else []

theorem mem_nextPulls {head peerTip : Nat} {request : GetBlocks} :
    request ∈ nextPulls head peerTip ↔
      head < peerTip ∧ peerTip ≤ head + SYNC_MAX_LOOKAHEAD ∧ request = nextRange head peerTip := by
  rw [nextPulls]
  split_ifs with h
  · simp [h]
  · simp only [List.not_mem_nil, false_iff]
    rintro ⟨hbehind, hnear, -⟩
    exact h ⟨hbehind, hnear⟩

theorem length_nextPulls (head peerTip : Nat) : (nextPulls head peerTip).length ≤ 1 := by
  rw [nextPulls]
  split_ifs
  · exact le_rfl
  · exact Nat.zero_le 1

-- Pulling on is all that a driver asks of the peer.
theorem requestsSince_maybeSync {d₁ : NetDriver} {peerTip : Nat} {cmds : List NetCmd}
    (hsent : d₁.sent = d.sent ++ cmds) (hquiet : cmds.filterMap (requestTo peer) = [])
    (hfree : d₁.syncInFlightTo < peerTip ∨ peerTip ≤ d₁.chain.head.number) :
    requestsSince (d₁.maybeSync peer peerTip) d.sent.length peer =
      nextPulls d₁.chain.head.number peerTip := by
  by_cases h : d₁.chain.head.number < peerTip ∧ peerTip ≤ d₁.chain.head.number + SYNC_MAX_LOOKAHEAD
  · obtain ⟨hbehind, hnear⟩ := h
    have hfree := hfree.resolve_right (Nat.not_le_of_lt hbehind)
    have hall : (d₁.maybeSync peer peerTip).sent =
        d.sent ++ (cmds ++ [.RequestBlocks peer (nextRange d₁.chain.head.number peerTip)]) := by
      rw [maybeSync_eq hbehind hnear hfree, NetDriver.send, hsent, List.append_assoc]
    rw [requestsSince_append hall, List.filterMap_append, hquiet, List.nil_append, nextPulls,
      if_pos ⟨hbehind, hnear⟩]
    simp [requestTo]
  · have hnothing : d₁.maybeSync peer peerTip = d₁ := by
      by_cases hbehind : peerTip ≤ d₁.chain.head.number
      · exact maybeSync_at_tip hbehind
      · refine maybeSync_too_far ?_
        rw [not_and] at h
        exact not_le.mp (h (not_le.mp hbehind))
    rw [hnothing, requestsSince_append hsent, hquiet, nextPulls, if_neg h]

theorem Linked.mono {head head' : Nat} {request : GetBlocks} (h : Linked head request)
    (hle : head ≤ head') : Linked head' request :=
  ⟨h.pos, h.joins.trans (Nat.add_le_add_right hle 1), h.batch⟩

theorem linked_nextRange {head peerTip : Nat} (h : head < peerTip) :
    Linked head (nextRange head peerTip) := by
  obtain ⟨hfrom, -, hbatch⟩ := properRange_nextRange h
  exact ⟨by omega, hfrom.le, hbatch⟩

end

end Ubi2.Node
