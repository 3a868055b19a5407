import Ubi2.Node.Pull

namespace Ubi2.Node

open Ubi2.Runtime Ubi2.Lib Ubi2.Lib.Encode Ubi2.Rpc Ubi2.Network Ubi2.Exec

-- A node that syncs from a peer: the requests that the peer has still to answer, and those
-- sent so far with the head they were sent at.
structure Exchange where
  driver : NetDriver
  opened : List GetBlocks
  trace : List (Nat × GetBlocks)

namespace Exchange

-- The driver has gone on, and what it has asked for meanwhile is open.
def resume (e : Exchange) (peer : PeerId) (d : NetDriver) : Exchange :=
  let requests := requestsSince d e.driver.sent.length peer
  { driver := d
    opened := e.opened ++ requests
    trace := e.trace ++ requests.map (d.chain.head.number, ·) }

def answerAll (host : NodeHost) (server : NetDriver) (peer : PeerId) (now : Nat) :
    List GetBlocks → Exchange → Option Exchange
  | [], e => some e
  | request :: requests, e =>
    (e.driver.onSyncResponse host now peer (answer server e.driver.localPeer request)).bind
      fun d => answerAll host server peer now requests (e.resume peer d)

-- Every open request is answered.
def round (host : NodeHost) (server : NetDriver) (peer : PeerId) (e : Exchange) (now : Nat) :
    Option Exchange :=
  answerAll host server peer now e.opened { e with opened := [] }

-- One round at each of the instants.
def run (host : NodeHost) (server : NetDriver) (peer : PeerId) :
    Exchange → List Nat → Option Exchange
  | e, [] => some e
  | e, now :: nows => (e.round host server peer now).bind fun e => run host server peer e nows

-- A node that learns of the tip of a peer. The requests after its first so many commands
-- are still open.
def start (d : NetDriver) (taken : Nat) (peer : PeerId) (peerTip : Nat) : Exchange :=
  resume ⟨d, requestsSince d taken peer, []⟩ peer (d.maybeSync peer peerTip)

end Exchange

-- The exchange ends after so many rounds, at the tip, and every range was proper.
def ReachesTip (host : NodeHost) (server : NetDriver) (peer : PeerId) (peerTip : Nat)
    (e : Exchange) : Prop :=
  ∃ rounds, ∀ instants : List Nat, instants.length = rounds →
    ∃ e', e.run host server peer instants = some e' ∧ e'.opened = [] ∧
      e'.driver.chain.head.number = peerTip ∧ ∀ p ∈ e'.trace, ProperRange p.1 p.2

-- The pulls that are open with a peer: fewer than the idle answers that the driver puts up
-- with, each of them linked, and the next to be answered for blocks above the head. The driver
-- has nothing in flight where there is none.
structure InFlight (d : NetDriver) (opened : List GetBlocks) : Prop where
  few : opened.length < SYNC_MAX_NO_PROGRESS_ROUNDS.toNat
  linked : ∀ request ∈ opened, Linked d.chain.head.number request
  next : ∀ request, opened.head? = some request → d.chain.head.number < request.to_
  free : opened = [] → d.syncInFlightTo = 0

section
variable {host : NodeHost} {d : NetDriver} {server : NetDriver} {peer : PeerId}

-- How an exchange comes from one state to another by the answers to some requests, with the
-- pulls that it has made on the way.
structure Moved (peerTip : Nat) (requests : List GetBlocks) (pulls : List (Nat × GetBlocks))
    (e e' : Exchange) : Prop where
  opened : e'.opened = e.opened ++ pulls.map Prod.snd
  trace : e'.trace = e.trace ++ pulls
  rises : e.driver.chain.head.number ≤ e'.driver.chain.head.number
  reaches : ∀ r ∈ requests, min r.to_ peerTip ≤ e'.driver.chain.head.number
  bounded : ∀ n, e.driver.chain.head.number ≤ n → (∀ r ∈ requests, r.to_ ≤ n) →
    e'.driver.chain.head.number ≤ n
  pulled : ∀ p ∈ pulls, p.2 ∈ nextPulls p.1 peerTip ∧ e.driver.chain.head.number ≤ p.1 ∧
    p.1 ≤ e'.driver.chain.head.number
  later : ∀ r, requests.head? = some r → ∀ p ∈ pulls, min r.to_ peerTip ≤ p.1
  few : pulls.length ≤ requests.length
  goes : requests ≠ [] → nextPulls e'.driver.chain.head.number peerTip ≠ [] → pulls ≠ []

theorem Moved.nil (peerTip : Nat) (e : Exchange) : Moved peerTip [] [] e e :=
  ⟨(List.append_nil _).symm, (List.append_nil _).symm, le_rfl, by simp, fun _ h _ => h, by simp,
    by simp, le_rfl, fun h => absurd rfl h⟩

-- One answer, after which the driver pulls on.
theorem moved_resume {e : Exchange} {d₁ : NetDriver} {cmds : List NetCmd} {request : GetBlocks}
    {peerTip : Nat} (hsent : d₁.sent = e.driver.sent ++ cmds)
    (hquiet : cmds.filterMap (requestTo peer) = []) (hfree : d₁.syncInFlightTo = 0)
    (hhead : d₁.chain.head.number = max e.driver.chain.head.number (min request.to_ peerTip)) :
    Moved peerTip [request]
      ((nextPulls d₁.chain.head.number peerTip).map (d₁.chain.head.number, ·))
      e (e.resume peer (d₁.maybeSync peer peerTip)) := by
  obtain ⟨hchain, -, -⟩ := maybeSync_keeps (d := d₁) peer peerTip
  have hpulls : requestsSince (d₁.maybeSync peer peerTip) e.driver.sent.length peer =
      nextPulls d₁.chain.head.number peerTip := by
    refine requestsSince_maybeSync hsent hquiet ?_
    rw [hfree]
    omega
  simp only [Exchange.resume, hpulls, hchain]
  refine ⟨by simp, rfl, ?_, ?_, ?_, ?_, ?_, ?_, ?_⟩
  · dsimp only
    rw [hchain, hhead]
    exact le_max_left _ _
  · intro r hr
    rw [List.mem_singleton.mp hr]
    dsimp only
    rw [hchain, hhead]
    exact le_max_right _ _
  · intro n hn hall
    have hto := hall request (List.mem_singleton_self _)
    dsimp only
    rw [hchain, hhead]
    exact max_le hn ((Nat.min_le_left _ _).trans hto)
  · intro p hp
    obtain ⟨r, hr, rfl⟩ := List.mem_map.mp hp
    dsimp only
    rw [hchain]
    refine ⟨hr, ?_, le_rfl⟩
    rw [hhead]
    exact le_max_left _ _
  · intro r hr p hp
    obtain ⟨r', -, rfl⟩ := List.mem_map.mp hp
    cases hr
    rw [hhead]
    exact le_max_right _ _
  · rw [List.length_map]
    exact length_nextPulls _ _
  · intro _ hgoes
    dsimp only at hgoes
    rw [hchain] at hgoes
    simpa using hgoes

theorem Moved.cons {peerTip : Nat} {request : GetBlocks} {requests : List GetBlocks}
    {pulls pulls' : List (Nat × GetBlocks)} {e e₁ e' : Exchange}
    (h : Moved peerTip [request] pulls e e₁) (h' : Moved peerTip requests pulls' e₁ e')
    (hstays : requests = [] → e' = e₁) :
    Moved peerTip (request :: requests) (pulls ++ pulls') e e' := by
  have hfirst := h.reaches request (List.mem_singleton_self _)
  refine ⟨?_, ?_, h.rises.trans h'.rises, ?_, ?_, ?_, ?_, ?_, ?_⟩
  · rw [h'.opened, h.opened, List.append_assoc, List.map_append]
  · rw [h'.trace, h.trace, List.append_assoc]
  · intro r hr
    rcases List.mem_cons.mp hr with rfl | hr
    · exact hfirst.trans h'.rises
    · exact h'.reaches r hr
  · intro n hn hall
    rw [List.forall_mem_cons] at hall
    refine h'.bounded n (h.bounded n hn ?_) hall.2
    intro r hr
    rw [List.mem_singleton.mp hr]
    exact hall.1
  · intro p hp
    rcases List.mem_append.mp hp with hp | hp
    · obtain ⟨hpull, hlow, hhigh⟩ := h.pulled p hp
      exact ⟨hpull, hlow, hhigh.trans h'.rises⟩
    · obtain ⟨hpull, hlow, hhigh⟩ := h'.pulled p hp
      exact ⟨hpull, h.rises.trans hlow, hhigh⟩
  · intro r hr p hp
    cases hr
    rcases List.mem_append.mp hp with hp | hp
    · exact h.later request rfl p hp
    · exact hfirst.trans (h'.pulled p hp).2.1
  · have hfew := h.few
    have hfew' := h'.few
    rw [List.length_append, List.length_cons]
    rw [List.length_singleton] at hfew
    omega
  · intro _ hgoes hnone
    obtain ⟨hnone, hnone'⟩ := List.append_eq_nil_iff.mp hnone
    by_cases hrest : requests = []
    · rw [hstays hrest] at hgoes
      exact h.goes (by simp) hgoes hnone
    · exact h'.goes hrest hgoes hnone'

section Rounds

variable {tip : Nat × Hash} {last : Chain} {idle : Nat} {e : Exchange}
variable (hwf : WellFormed host server.chain) (hserver : server.chain.head.number = tip.1)

include hwf hserver

-- Open ranges are answered one after another. The driver stays patient when the first answer
-- brings blocks, or when the idle ones are few.
theorem answerAll_of_pulls (now : Nat) (requests : List GetBlocks)
    (h : Pulls host server peer tip last idle e.driver)
    (hlinked : ∀ r ∈ requests, Linked e.driver.chain.head.number r)
    (hpatient : idle + requests.length < SYNC_MAX_NO_PROGRESS_ROUNDS.toNat ∨
      requests.length ≤ SYNC_MAX_NO_PROGRESS_ROUNDS.toNat ∧
        ∃ r, requests.head? = some r ∧ e.driver.chain.head.number < min r.to_ tip.1) :
    ∃ e' pulls idle', Exchange.answerAll host server peer now requests e = some e' ∧
      Moved tip.1 requests pulls e e' ∧ Pulls host server peer tip last idle' e'.driver ∧
      (e.driver.chain.head.number = tip.1 → idle' ≤ idle + requests.length) ∧
      (e.driver.chain.head.number < tip.1 → e'.driver.chain.head.number = tip.1 →
        idle' + pulls.length < requests.length) := by
  induction requests generalizing e idle with
  | nil =>
    exact ⟨e, [], idle, rfl, .nil tip.1 e, h, fun _ => le_rfl, fun hlt heq => by omega⟩
  | cons request requests ih =>
    rw [List.forall_mem_cons] at hlinked
    rw [List.length_cons] at hpatient
    have hbrings : e.driver.chain.head.number < min request.to_ tip.1 ∨
        idle + 1 < SYNC_MAX_NO_PROGRESS_ROUNDS.toNat := by
      rcases hpatient with hfew | ⟨-, r, hr, hup⟩
      · exact Or.inr (by omega)
      · cases hr
        exact Or.inl hup
    obtain ⟨d₁, cmds, hresponse, hpulls, hhead, hfree, hsent, hquiet⟩ :=
      onSyncResponse_of_pulls now h hwf hserver hlinked.1 hbrings
    have hmoved := moved_resume hsent hquiet hfree hhead
    obtain ⟨hchain, hoverride, hpeers⟩ := maybeSync_keeps (d := d₁) peer tip.1
    have hpulls₁ : Pulls host server peer tip last
        (if e.driver.chain.head.number < min request.to_ tip.1 then 0 else idle + 1)
        (e.resume peer (d₁.maybeSync peer tip.1)).driver := by
      obtain ⟨hahead, hwithin, hknown, hcounted⟩ := hpulls
      simp only [Exchange.resume]
      refine ⟨by rwa [hchain, hoverride], by rwa [hchain], by rwa [hpeers], ?_⟩
      rwa [NetDriver.entry, hpeers]
    obtain ⟨e₁, he₁⟩ : ∃ e₁, e₁ = e.resume peer (d₁.maybeSync peer tip.1) := ⟨_, rfl⟩
    have hhead₁ : e₁.driver.chain.head.number =
        max e.driver.chain.head.number (min request.to_ tip.1) := by
      rw [he₁, ← hhead, ← hchain]
      rfl
    rw [← he₁] at hmoved hpulls₁
    have hwithin := h.within
    have hwithin₁ := hpulls₁.within
    have hpatient₁ : (if e.driver.chain.head.number < min request.to_ tip.1 then 0
        else idle + 1) + requests.length < SYNC_MAX_NO_PROGRESS_ROUNDS.toNat := by
      rcases hpatient with hfew | ⟨hfew, r, hr, hup⟩
      · split_ifs <;> omega
      · cases hr
        rw [if_pos hup]
        omega
    obtain ⟨e', pulls, idle', hall, hmoved', hpulls', hidle, hfew⟩ := ih hpulls₁
      (fun r hr => (hlinked.2 r hr).mono hmoved.rises) (Or.inl hpatient₁)
    refine ⟨e', _, idle', ?_, hmoved.cons hmoved' ?_, hpulls', ?_, ?_⟩
    · rw [Exchange.answerAll, hresponse, Option.bind_some, ← he₁]
      exact hall
    · rintro rfl
      exact (Option.some.inj hall).symm
    · intro htip
      have hstay := hidle (by omega)
      rw [if_neg (by omega)] at hstay
      rw [List.length_cons]
      omega
    · intro hlt htip
      rw [List.length_append, List.length_cons]
      have hone := hmoved.few
      rw [List.length_singleton] at hone
      by_cases hreached : e₁.driver.chain.head.number = tip.1
      · -- nothing is pulled from the tip on
        have hstay := hidle hreached
        rw [if_pos (by omega)] at hstay
        have hnone : ∀ p ∈ pulls, False := by
          intro p hp
          obtain ⟨hpull, hlow, -⟩ := hmoved'.pulled p hp
          have hbelow := (mem_nextPulls.mp hpull).1
          omega
        have hnil : pulls = [] := List.eq_nil_iff_forall_not_mem.mpr hnone
        have hnone₁ : nextPulls d₁.chain.head.number tip.1 = [] := by
          rw [nextPulls, if_neg (by omega)]
        rw [hnone₁, hnil, List.map_nil, List.length_nil]
        omega
      · have hrest := hfew (by omega) htip
        omega

-- An exchange at the tip, with few answers still to come.
structure Settled (host : NodeHost) (server : NetDriver) (peer : PeerId) (tip : Nat × Hash)
    (last : Chain) (e : Exchange) : Prop where
  settled : e.driver.chain.head.number = tip.1
  linked : ∀ r ∈ e.opened, Linked e.driver.chain.head.number r
  pulls : ∃ idle, Pulls host server peer tip last idle e.driver ∧
    idle + e.opened.length < SYNC_MAX_NO_PROGRESS_ROUNDS.toNat

-- An exchange short of the tip: the first open range is for blocks above the head, and the
-- open ranges come near enough to the tip.
structure Pulling (host : NodeHost) (server : NetDriver) (peer : PeerId) (tip : Nat × Hash)
    (last : Chain) (e : Exchange) : Prop where
  pulls : ∃ idle, Pulls host server peer tip last idle e.driver
  linked : ∀ r ∈ e.opened, Linked e.driver.chain.head.number r
  few : e.opened.length ≤ SYNC_MAX_NO_PROGRESS_ROUNDS.toNat
  next : ∃ r, e.opened.head? = some r ∧ e.driver.chain.head.number < min r.to_ tip.1
  near : tip.1 ≤ e.driver.chain.head.number + SYNC_MAX_LOOKAHEAD ∨
    ∃ r ∈ e.opened, tip.1 ≤ r.to_ + SYNC_MAX_LOOKAHEAD

-- At the tip the driver asks for nothing more.
theorem round_of_settled (now : Nat) (h : Settled host server peer tip last e) :
    ∃ e', e.round host server peer now = some e' ∧ Settled host server peer tip last e' ∧
      e'.opened = [] ∧ e'.trace = e.trace := by
  obtain ⟨hsettled, hlinked, idle, hpulls, hfew⟩ := h
  obtain ⟨e', pulls, idle', hall, hmoved, hpulls', hidle, -⟩ :=
    answerAll_of_pulls (e := { e with opened := [] }) hwf hserver now e.opened hpulls hlinked
      (Or.inl hfew)
  have hwithin := hpulls'.within
  have hrises : e.driver.chain.head.number ≤ e'.driver.chain.head.number := hmoved.rises
  have hnone : pulls = [] := by
    refine List.eq_nil_iff_forall_not_mem.mpr (fun p hp => ?_)
    obtain ⟨hpull, hlow, -⟩ := hmoved.pulled p hp
    have hbelow := (mem_nextPulls.mp hpull).1
    dsimp only at hlow
    omega
  have hopened : e'.opened = [] := by rw [hmoved.opened, hnone]; rfl
  refine ⟨e', hall, ⟨by omega, ?_, idle', hpulls', ?_⟩, hopened, ?_⟩
  · rw [hopened]
    simp
  · have hstay := hidle hsettled
    rw [hopened, List.length_nil]
    omega
  · rw [hmoved.trace, hnone, List.append_nil]

theorem run_of_settled (instants : List Nat) (h : Settled host server peer tip last e)
    (hempty : instants = [] → e.opened = []) :
    ∃ e', e.run host server peer instants = some e' ∧ e'.opened = [] ∧
      e'.driver.chain.head.number = tip.1 ∧ e'.trace = e.trace := by
  induction instants generalizing e with
  | nil => exact ⟨e, rfl, hempty rfl, h.settled, rfl⟩
  | cons now instants ih =>
    obtain ⟨e₁, hround, hsettled, hopened, htrace⟩ := round_of_settled hwf hserver now h
    obtain ⟨e', hrun, hdone, hhead, hsame⟩ := ih hsettled (fun _ => hopened)
    refine ⟨e', ?_, hdone, hhead, hsame.trans htrace⟩
    rw [Exchange.run, hround]
    exact hrun

-- Short of the tip every round raises the head, by blocks that were asked for properly.
theorem round_of_pulling (now : Nat) (h : Pulling host server peer tip last e) :
    ∃ e' pulls, e.round host server peer now = some e' ∧
      e.driver.chain.head.number < e'.driver.chain.head.number ∧
      e'.trace = e.trace ++ pulls ∧ (∀ p ∈ pulls, ProperRange p.1 p.2) ∧
      (Settled host server peer tip last e' ∨ Pulling host server peer tip last e') := by
  obtain ⟨⟨idle, hpulls⟩, hlinked, hfew, ⟨first, hfirst, hup⟩, hnear⟩ := h
  obtain ⟨e', pulls, idle', hall, hmoved, hpulls', -, hend⟩ :=
    answerAll_of_pulls (e := { e with opened := [] }) hwf hserver now e.opened hpulls hlinked
      (Or.inr ⟨hfew, first, hfirst, hup⟩)
  have hwithin := hpulls'.within
  have hmem : first ∈ e.opened := List.mem_of_head? hfirst
  have hreached := hmoved.reaches first hmem
  have hopened : e'.opened = pulls.map Prod.snd := hmoved.opened
  have hproper : ∀ p ∈ pulls, ProperRange p.1 p.2 := by
    intro p hp
    obtain ⟨hbelow, -, heq⟩ := mem_nextPulls.mp (hmoved.pulled p hp).1
    rw [heq]
    exact properRange_nextRange hbelow
  have hlinked' : ∀ r ∈ e'.opened, Linked e'.driver.chain.head.number r := by
    intro r hr
    rw [hopened] at hr
    obtain ⟨p, hp, rfl⟩ := List.mem_map.mp hr
    obtain ⟨hpull, -, hhigh⟩ := hmoved.pulled p hp
    obtain ⟨hbelow, -, heq⟩ := mem_nextPulls.mp hpull
    rw [heq]
    exact (linked_nextRange hbelow).mono hhigh
  refine ⟨e', pulls, hall, hup.trans_le hreached, hmoved.trace, hproper, ?_⟩
  by_cases htip : e'.driver.chain.head.number = tip.1
  · have hcount := hend (by dsimp only; omega) htip
    refine Or.inl ⟨htip, hlinked', idle', hpulls', ?_⟩
    rw [hopened, List.length_map]
    omega
  · have hclose : tip.1 ≤ e'.driver.chain.head.number + SYNC_MAX_LOOKAHEAD := by
      rcases hnear with hnear | ⟨r, hr, hnear⟩
      · omega
      · have hrange := hmoved.reaches r hr
        omega
    -- the driver has pulled on, at a head above that before the round
    have hgoes : pulls ≠ [] := by
      refine hmoved.goes (List.ne_nil_of_mem hmem) (List.ne_nil_of_mem (mem_nextPulls.mpr
        ⟨?_, hclose, rfl⟩))
      omega
    obtain ⟨p, rest, rfl⟩ := List.exists_cons_of_ne_nil hgoes
    obtain ⟨hbelow, -, heq⟩ := mem_nextPulls.mp (hmoved.pulled p List.mem_cons_self).1
    have hhead := hmoved.later first hfirst p List.mem_cons_self
    have hbatch : e'.driver.chain.head.number ≤ e.driver.chain.head.number + SYNC_MAX_BATCH := by
      refine hmoved.bounded _ (Nat.le_add_right _ _) (fun r hr => ?_)
      obtain ⟨-, hjoins, hto⟩ := hlinked r hr
      omega
    have hto : p.2.to_ = min tip.1 (p.1 + SYNC_MAX_BATCH) := by rw [heq]; rfl
    refine Or.inr ⟨⟨idle', hpulls'⟩, hlinked', ?_, ⟨p.2, by rw [hopened]; rfl, ?_⟩, Or.inl hclose⟩
    · rw [hopened, List.length_map]
      exact hmoved.few.trans hfew
    · rw [hto]
      omega

-- By induction on how far the head is from the tip.
theorem run_of_pulling (distance : Nat) (h : Pulling host server peer tip last e)
    (hdistance : tip.1 ≤ e.driver.chain.head.number + distance)
    (hproper : ∀ p ∈ e.trace, ProperRange p.1 p.2) (instants : List Nat)
    (hinstants : instants.length = distance + 1) :
    ∃ e', e.run host server peer instants = some e' ∧ e'.opened = [] ∧
      e'.driver.chain.head.number = tip.1 ∧ ∀ p ∈ e'.trace, ProperRange p.1 p.2 := by
  induction distance generalizing e instants with
  | zero =>
    obtain ⟨r, -, hup⟩ := h.next
    omega
  | succ distance ih =>
    obtain ⟨now, instants, rfl⟩ := List.exists_cons_of_length_eq_add_one hinstants
    rw [List.length_cons, Nat.add_right_cancel_iff] at hinstants
    obtain ⟨e₁, pulls, hround, hrise, htrace, hpulls, hstate⟩ :=
      round_of_pulling hwf hserver now h
    have hproper₁ : ∀ p ∈ e₁.trace, ProperRange p.1 p.2 := by
      intro p hp
      rw [htrace, List.mem_append] at hp
      exact hp.elim (hproper p) (hpulls p)
    rw [Exchange.run, hround, Option.bind_some]
    rcases hstate with hsettled | hpulling
    · obtain ⟨e', hrun, hdone, hhead, hsame⟩ := run_of_settled hwf hserver instants hsettled
        (fun hnil => by rw [hnil] at hinstants; cases hinstants)
      exact ⟨e', hrun, hdone, hhead, hsame ▸ hproper₁⟩
    · exact ih hpulling (by omega) hproper₁ instants hinstants

end Rounds

-- Nothing is asked for, so nothing changes.
theorem run_of_idle {e : Exchange} (h : e.opened = []) (instants : List Nat) :
    e.run host server peer instants = some e := by
  induction instants with
  | nil => rfl
  | cons now instants ih =>
    have hround : e.round host server peer now = some e := by
      rw [Exchange.round, h, Exchange.answerAll, ← h]
    rw [Exchange.run, hround]
    exact ih

-- What the node asks for when it hears of the tip is open beside what was.
theorem start_eq (d : NetDriver) (peer : PeerId) (taken peerTip : Nat) :
    ∃ requests, Exchange.start d taken peer peerTip =
        ⟨d.maybeSync peer peerTip, requestsSince d taken peer ++ requests,
          requests.map (d.chain.head.number, ·)⟩ ∧
      requests.length ≤ 1 ∧
      (∀ r ∈ requests, r ∈ nextPulls d.chain.head.number peerTip) ∧
      (d.syncInFlightTo < peerTip → requests = nextPulls d.chain.head.number peerTip) := by
  obtain ⟨hchain, -, -⟩ := maybeSync_keeps (d := d) peer peerTip
  have hsent : d.sent = d.sent ++ [] := (List.append_nil _).symm
  refine ⟨requestsSince (d.maybeSync peer peerTip) d.sent.length peer, ?_, ?_⟩
  · simp only [Exchange.start, Exchange.resume, hchain, List.nil_append]
  by_cases hfree : d.syncInFlightTo < peerTip ∨ peerTip ≤ d.chain.head.number
  · rw [requestsSince_maybeSync hsent rfl hfree]
    exact ⟨length_nextPulls _ _, fun r hr => hr, fun _ => rfl⟩
  · rw [not_or, not_lt] at hfree
    have hnothing : d.maybeSync peer peerTip = d := by
      rw [NetDriver.maybeSync]
      dsimp only
      split_ifs
      · rfl
      · rfl
      · rfl
      · exact absurd hfree.1 ‹_›
    rw [hnothing, requestsSince_append hsent]
    exact ⟨Nat.zero_le _, by simp, fun hlt => absurd hlt (not_lt.mpr hfree.1)⟩

section Start

variable {taken : Nat} {tip : Nat × Hash} {last : Chain}
variable (hwf : WellFormed host server.chain) (hserver : server.chain.head.number = tip.1)
variable (hbehind : d.chain.head.number < tip.1)
variable (hknown : (d.peers.get peer).bind (fun p => p.2.tip) = some tip)
variable (hahead : Ahead host server tip.1 d.validatorOverride d.chain last)
variable (hflight : InFlight d (requestsSince d taken peer))

include hbehind hknown hahead

theorem pulls_maybeSync : Pulls host server peer tip last (d.entry peer).syncNoProgress.toNat
    (d.maybeSync peer tip.1) := by
  obtain ⟨hchain, hoverride, hpeers⟩ := maybeSync_keeps (d := d) peer tip.1
  refine ⟨by rwa [hchain, hoverride], by rw [hchain]; exact hbehind.le, by rwa [hpeers], ?_⟩
  rw [NetDriver.entry, hpeers]
  exact le_rfl

include hflight

-- Near enough to the tip, the exchange starts with an open range for blocks above the head.
theorem pulling_start (hnear : tip.1 ≤ d.chain.head.number + SYNC_MAX_LOOKAHEAD ∨
      ∃ request ∈ requestsSince d taken peer, tip.1 ≤ request.to_ + SYNC_MAX_LOOKAHEAD) :
    Pulling host server peer tip last (.start d taken peer tip.1) := by
  obtain ⟨requests, hstart, hone, hnext, hfree⟩ := start_eq d peer taken tip.1
  obtain ⟨hchain, -, -⟩ := maybeSync_keeps (d := d) peer tip.1
  obtain ⟨hfew, hlinked, hfirst, hmarker⟩ := hflight
  have hbatch : 0 < SYNC_MAX_BATCH := by decide
  rw [hstart]
  refine ⟨⟨_, pulls_maybeSync hbehind hknown hahead⟩, ?_, ?_, ?_, ?_⟩
  · intro r hr
    dsimp only at hr ⊢
    rw [hchain]
    rcases List.mem_append.mp hr with hr | hr
    · exact hlinked r hr
    · rw [(mem_nextPulls.mp (hnext r hr)).2.2]
      exact linked_nextRange hbehind
  · dsimp only
    rw [List.length_append]
    omega
  · dsimp only
    rw [hchain]
    cases hopened : requestsSince d taken peer with
    | nil =>
      -- nothing is in flight, so the next range is asked for
      rw [hopened] at hnear
      have hclose : tip.1 ≤ d.chain.head.number + SYNC_MAX_LOOKAHEAD := by simpa using hnear
      have hmark : d.syncInFlightTo < tip.1 := by
        rw [hmarker hopened]
        omega
      rw [hfree hmark, nextPulls, if_pos ⟨hbehind, hclose⟩]
      refine ⟨nextRange d.chain.head.number tip.1, rfl, ?_⟩
      have hto : (nextRange d.chain.head.number tip.1).to_ =
          min tip.1 (d.chain.head.number + SYNC_MAX_BATCH) := rfl
      omega
    | cons r rest =>
      have hr := hfirst r (by rw [hopened]; rfl)
      exact ⟨r, rfl, by omega⟩
  · dsimp only
    rw [hchain]
    rcases hnear with hnear | ⟨r, hr, hnear⟩
    · exact Or.inl hnear
    · exact Or.inr ⟨r, List.mem_append_left _ hr, hnear⟩

include hwf hserver

-- Too far from the tip, the pulls in flight are answered and no other is made.
theorem run_of_far (hfar : d.chain.head.number + SYNC_MAX_LOOKAHEAD < tip.1)
    (hshort : ∀ request ∈ requestsSince d taken peer, request.to_ + SYNC_MAX_LOOKAHEAD < tip.1)
    (instants : List Nat) {e : Exchange}
    (hrun : (Exchange.start d taken peer tip.1).run host server peer instants = some e) :
    e.driver.chain.head.number < tip.1 := by
  obtain ⟨requests, hstart, -, hnext, -⟩ := start_eq d peer taken tip.1
  obtain ⟨hfew, hlinked, hfirst, -⟩ := hflight
  have hnone : requests = [] := by
    refine List.eq_nil_iff_forall_not_mem.mpr (fun r hr => ?_)
    have hnear := (mem_nextPulls.mp (hnext r hr)).2.1
    omega
  rw [hstart, hnone, List.append_nil, maybeSync_too_far hfar] at hrun
  have hpulls := pulls_maybeSync hbehind hknown hahead
  rw [maybeSync_too_far hfar] at hpulls
  cases instants with
  | nil =>
    cases hrun
    exact hbehind
  | cons now instants =>
    cases hopened : requestsSince d taken peer with
    | nil =>
      rw [hopened, run_of_idle rfl] at hrun
      cases hrun
      exact hbehind
    | cons r rest =>
      have hr := hfirst r (by rw [hopened]; rfl)
      have hend := hshort r (by rw [hopened]; exact List.mem_cons_self)
      obtain ⟨e₁, pulls, idle, hround, hmoved, -⟩ :=
        answerAll_of_pulls (e := ⟨d, [], []⟩) hwf hserver now (requestsSince d taken peer) hpulls
          hlinked (Or.inr ⟨hfew.le, r, by rw [hopened]; rfl, by dsimp only; omega⟩)
      have hbound : e₁.driver.chain.head.number ≤ tip.1 - SYNC_MAX_LOOKAHEAD - 1 := by
        refine hmoved.bounded _ (by dsimp only; omega) (fun r hr => ?_)
        have hend := hshort r hr
        omega
      have hquiet : e₁.opened = [] := by
        rw [hmoved.opened, List.nil_append, List.map_eq_nil_iff]
        refine List.eq_nil_iff_forall_not_mem.mpr (fun p hp => ?_)
        obtain ⟨hpull, -, hhigh⟩ := hmoved.pulled p hp
        have hnear := (mem_nextPulls.mp hpull).2.1
        omega
      rw [Exchange.run, Exchange.round, List.map_nil, hround, Option.bind_some,
        run_of_idle hquiet] at hrun
      cases hrun
      omega

-- The exchange reaches the tip exactly when that is near enough to the local head, or to the
-- end of a pull that is in flight.
theorem sync_reaches_tip_iff : ReachesTip host server peer tip.1 (.start d taken peer tip.1) ↔
    tip.1 ≤ d.chain.head.number + SYNC_MAX_LOOKAHEAD ∨
      ∃ request ∈ requestsSince d taken peer, tip.1 ≤ request.to_ + SYNC_MAX_LOOKAHEAD := by
  constructor
  · rintro ⟨rounds, hreach⟩
    by_contra hfar
    rw [not_or, not_le] at hfar
    obtain ⟨e, hrun, -, hhead, -⟩ := hreach (List.replicate rounds 0) List.length_replicate
    refine absurd hhead (Nat.ne_of_lt ?_)
    refine run_of_far hwf hserver hbehind hknown hahead hflight hfar.1 (fun r hr => ?_) _ hrun
    exact not_le.mp (fun hnear => hfar.2 ⟨r, hr, hnear⟩)
  · intro hnear
    obtain ⟨requests, hstart, -, hnext, -⟩ := start_eq d peer taken tip.1
    obtain ⟨hchain, -, -⟩ := maybeSync_keeps (d := d) peer tip.1
    have hpulling := pulling_start hbehind hknown hahead hflight hnear
    refine ⟨tip.1 - d.chain.head.number + 1, fun instants hinstants =>
      run_of_pulling hwf hserver (tip.1 - d.chain.head.number) hpulling ?_ ?_ instants hinstants⟩
    · rw [hstart]
      dsimp only
      rw [hchain]
      omega
    · rw [hstart]
      intro p hp
      obtain ⟨r, hr, rfl⟩ := List.mem_map.mp hp
      rw [(mem_nextPulls.mp (hnext r hr)).2.2]
      exact properRange_nextRange hbehind

end Start

end

-- A host whose hash reads the first eight bytes, which in a header are its height.
def heightHost : NodeHost where
  toHost :=
    { mockHost with
      keccak256 := fun bytes => BitVec.ofNat 256 (Decode.ofBytes (bytes.take 8)) }
  decodePendingTx := fun _ => none
  recoverProposer := devnetHost.recoverProposer

-- The block without transactions of a height, by the proposer 1.
def quietBlock (n : Nat) : Block where
  number := n
  hash := BitVec.ofNat 256 n
  parentHash := BitVec.ofNat 256 (n - 1)
  timestamp := BitVec.ofNat 64 n
  view := 0#32
  txsRoot := computeTxsRoot heightHost []
  stateRoot := stateRoot {}
  proposer := 1#160
  proposerSig := (ProposerKey.devnet 1#160).signPrehash (BitVec.ofNat 256 n)
  txs := []

def quietWire (n : Nat) : WireBlock :=
  (Chain.new heightHost none 0#64).wireBlockFrom (quietBlock n)

-- A chain of such blocks.
structure Quiet (chain : Chain) (n : Nat) : Prop where
  wellFormed : WellFormed heightHost chain
  height : chain.head.number = n
  hash : chain.head.hash = BitVec.ofNat 256 n
  timestamp : chain.head.timestamp = BitVec.ofNat 64 n
  state : chain.inner.state = {}
  served : ∀ k < n, chain.blockAt (k + 1) = some (quietBlock (k + 1))

theorem hash_header {n : Nat} (hn : n < 2 ^ 64) (parentHash : Hash) (timestamp : U64)
    (view : U32) (txsRoot root : Hash) (proposer : Address) :
    computeHash heightHost n parentHash timestamp view txsRoot root proposer =
      BitVec.ofNat 256 n := by
  have hlen : (natBytes 8 n).length = 8 := length_natBytes 8 n
  simp only [computeHash, headerPreimage, heightHost, List.append_assoc]
  rw [List.take_left' hlen, Decode.ofBytes_natBytes hn]

theorem known_of_knowsBlock {chain : Chain} {hash : Hash} (h : chain.knowsBlock hash = true) :
    ∃ b ∈ chain.inner.blocks, b.hash = hash := by
  obtain ⟨e, hget⟩ := Table.contains_eq_true.mp h
  obtain ⟨hmem, hkey⟩ := Table.get_eq_some_iff.mp hget
  obtain ⟨hlt, hhash⟩ := chain.inner.indexed e hmem
  exact ⟨_, List.get_mem _ _, hhash.trans hkey⟩

theorem mine_quiet {chain : Chain} (h : chain.inner.state = {}) (timestamp : U64) (view : U32) :
    ∃ m, mine heightHost chain.inner [] timestamp view = some m ∧ m.state = {} ∧
      m.stored = [] := by
  have hstart : chain.inner.start.state = {} := by
    rw [Inner.start, h, blockStart]
    split_ifs <;> rfl
  refine ⟨_, rfl, ?_, ?_⟩
  · rw [mineSweeps, hstart]
    rfl
  · rw [mineSweeps, hstart]
    rfl

theorem mineBlock_quiet {chain : Chain} {n : Nat} (h : Quiet chain n) (hn : n + 1 < 2 ^ 64)
    {m : Mined} (hstate : m.state = {}) (hstored : m.stored = []) :
    mineBlock heightHost chain.proposerKey chain.head 0 (BitVec.ofNat 64 (n + 1)) 0#32
      (some (1#160, (quietBlock (n + 1)).proposerSig)) m = quietBlock (n + 1) := by
  simp only [mineBlock, hstate, hstored, h.height, h.hash, stampOf, hash_header hn, quietBlock,
    List.take_nil, List.map_nil, Nat.add_sub_cancel]

-- The next block applies.
theorem Quiet.next {chain : Chain} {n : Nat} (h : Quiet chain n) (hn : n + 1 < 2 ^ 64) :
    ∃ produced chain', shallowVerify heightHost (quietWire (n + 1)) = true ∧
      chain.knowsBlock ((quietWire (n + 1)).hash heightHost) = false ∧
      chain.validateAndApplyBlock heightHost (quietWire (n + 1)) (some 1#160) =
        some (.ok produced, chain') ∧
      Quiet (chain'.cacheRawTxs heightHost (quietWire (n + 1)).rawTxs) (n + 1) := by
  have hhash : (quietWire (n + 1)).hash heightHost = BitVec.ofNat 256 (n + 1) :=
    hash_header hn _ _ _ _ _ _
  have hsigned : heightHost.recoverProposer ((quietWire (n + 1)).hash heightHost)
      (quietWire (n + 1)).proposerSig = some 1#160 := by
    have hsig : (quietWire (n + 1)).proposerSig =
        (ProposerKey.devnet 1#160).signPrehash (BitVec.ofNat 256 (n + 1)) := rfl
    have hrecover : heightHost.recoverProposer = devnetHost.recoverProposer := rfl
    rw [hhash, hsig, hrecover, recover_devnet]
  have hverify : shallowVerify heightHost (quietWire (n + 1)) = true := by
    have hsig : (quietWire (n + 1)).proposerSig ≠ [] := by
      intro hnil
      rw [hnil] at hsigned
      cases hsigned
    have htxs : Network.recomputeTxsRoot heightHost (quietWire (n + 1)) =
        (quietWire (n + 1)).txsRoot := by
      simp only [Network.recomputeTxsRoot, quietWire, Chain.wireBlockFrom, quietBlock,
        Chain.rawTxsForBlock, computeTxsRoot, List.filterMap_nil, List.map_nil]
    rw [shallowVerify, if_neg (not_not.mpr htxs), if_neg hsig, hsigned]
    exact decide_eq_true rfl
  have hnew : chain.knowsBlock ((quietWire (n + 1)).hash heightHost) = false := by
    rw [Bool.eq_false_iff]
    intro hknown
    obtain ⟨b, hb, heq⟩ := known_of_knowsBlock hknown
    have hlt := h.wellFormed.lt_of_mem hb
    rw [h.wellFormed.length, h.height] at hlt
    have hnumber : b.hash = BitVec.ofNat 256 b.number := by
      rw [h.wellFormed.hashed b hb]
      exact hash_header (by omega) _ _ _ _ _ _
    rw [hhash, hnumber] at heq
    have := congrArg BitVec.toNat heq
    simp only [BitVec.toNat_ofNat] at this
    omega
  have hseeded : chain.ensureEpochValidatorsSeeded.inner.state = {} := by
    rw [Chain.ensureEpochValidatorsSeeded, h.state, seedEpochValidators]
    split_ifs <;> rfl
  have hheader : headerError heightHost chain.head
      chain.ensureEpochValidatorsSeeded.inner.state (some 1#160) (quietWire (n + 1)) = none := by
    have hlater : chain.head.timestamp < (quietWire (n + 1)).timestamp := by
      rw [h.timestamp]
      show BitVec.ofNat 64 n < BitVec.ofNat 64 (n + 1)
      rw [BitVec.lt_def, BitVec.toNat_ofNat, BitVec.toNat_ofNat]
      omega
    have hview : 0#32 < VIEW_MAX := by decide
    have hturn : [1#160][proposerIndex (n + 1) 0#32 1]? = some 1#160 := by
      have hindex : proposerIndex (n + 1) 0#32 1 = 0 := by
        have := proposerIndex_lt (n + 1) 0#32 Nat.one_pos
        omega
      rw [hindex]
      rfl
    exact headerError_eq_none.mpr
      ⟨congrArg (· + 1) h.height.symm, h.hash.symm, hlater, hview, hturn, hsigned⟩
  obtain ⟨m, hmine, hstate, hstored⟩ := mine_quiet hseeded (BitVec.ofNat 64 (n + 1)) 0#32
  have hblock := mineBlock_quiet h hn hstate hstored
  have hconfirms : Chain.confirms heightHost (quietWire (n + 1)) (quietBlock (n + 1)) :=
    ⟨rfl, rfl, hhash.symm⟩
  have hdecode : (quietWire (n + 1)).rawTxs.mapM heightHost.decodePendingTx = some [] := rfl
  obtain ⟨produced, chain', happly, hstate'⟩ := validateAndApplyBlock_of_confirms hheader
    hdecode hmine (hblock.symm ▸ hconfirms)
  refine ⟨produced, chain', hverify, hnew, happly, ?_⟩
  have happlied := validateAndApplyBlock_ok happly
  have hproduced : produced = quietBlock (n + 1) := by
    rcases validateAndApplyBlock_cases happly with ⟨e, hr, -, -⟩ |
      ⟨pending, m', produced', hr, -, hdecode, hmine', hproduced, -, -⟩
    · cases hr
    · cases hr
      cases hdecode
      have hm : m' = m := Option.some.inj (hmine'.symm.trans hmine)
      rw [hproduced, hm]
      exact hblock
  have hblocks : (chain'.cacheRawTxs heightHost (quietWire (n + 1)).rawTxs).inner.blocks =
      chain.inner.blocks ++ [quietBlock (n + 1)] := hproduced ▸ happlied.blocks
  have hhead : (chain'.cacheRawTxs heightHost (quietWire (n + 1)).rawTxs).head =
      quietBlock (n + 1) := head_of_append hblocks
  have hlength := h.wellFormed.length
  rw [h.height] at hlength
  refine ⟨(happlied.wellFormed h.wellFormed).of_same rfl
    (happlied.wellFormed h.wellFormed).retained, by rw [hhead]; rfl, by rw [hhead]; rfl,
    by rw [hhead]; rfl, hstate'.trans hstate, ?_⟩
  intro k hk
  rw [Chain.blockAt, hblocks]
  by_cases hlast : k = n
  · subst hlast
    rw [← hlength, List.getElem?_concat_length]
  · rw [List.getElem?_append_left (by omega)]
    exact h.served k (by omega)

theorem quiet_new : Quiet (Chain.new heightHost none 0#64) 0 := by
  have hhash : (Chain.new heightHost none 0#64).head.hash = BitVec.ofNat 256 0 :=
    hash_header (by decide) _ _ _ _ _ _
  refine ⟨wellFormed_of_reachable ⟨none, 0#64, {}, [], rfl⟩, rfl, hhash, rfl, rfl, ?_⟩
  intro k hk
  omega

-- A node at genesis can be extended to such a chain of any height.
theorem exists_quiet (n : Nat) (hn : n < 2 ^ 64) :
    ∃ chain, Quiet chain n ∧ Extends heightHost (some 1#160) (Chain.new heightHost none 0#64)
      ((List.range' 1 n).map quietWire) chain := by
  induction n with
  | zero => exact ⟨_, quiet_new, .nil _⟩
  | succ n ih =>
    obtain ⟨chain, hquiet, hextends⟩ := ih (by omega)
    obtain ⟨produced, chain', hverify, hnew, happly, hquiet'⟩ := hquiet.next hn
    refine ⟨_, hquiet', ?_⟩
    rw [List.range'_1_concat, List.map_append, Nat.add_comm 1 n]
    exact hextends.append (.cons hverify hnew happly (.nil _))

-- A node that has just started and has heard of the tip of a peer.
def newcomer (tip : Nat × Hash) : NetDriver :=
  (NetDriver.new (Chain.new heightHost none 0#64) none (some 1#160) false 1#64 7 2000 0).setTip 9
    tip

theorem wireBlocks_quiet {server : NetDriver} {n : Nat} (h : Quiet server.chain n) :
    server.wireBlocks 1 n = (List.range' 1 n).map quietWire := by
  have hserved : ∀ k ∈ List.range' 1 n,
      (server.chain.blockAt k).map server.chain.wireBlockFrom = some (quietWire k) := by
    intro k hk
    obtain ⟨hpos, hlt⟩ := List.mem_range'_1.mp hk
    obtain ⟨j, rfl⟩ := Nat.exists_eq_add_of_le' hpos
    rw [h.served j (by omega)]
    rfl
  rw [NetDriver.wireBlocks, Nat.add_sub_cancel, List.filterMap_congr hserved,
    List.filterMap_eq_map']

-- A peer on such a chain, which it serves in full to the newcomer.
theorem exists_quiet_server (n : Nat) (hn : n < 2 ^ 64) (tip : Nat × Hash) :
    ∃ (server : NetDriver) (last : Chain), WellFormed heightHost server.chain ∧
      server.chain.head.number = n ∧
      Ahead heightHost server n (newcomer tip).validatorOverride (newcomer tip).chain last := by
  obtain ⟨chain, hquiet, hextends⟩ := exists_quiet n hn
  refine ⟨{ newcomer tip with chain := chain }, chain, hquiet.wellFormed, hquiet.height, ?_, ?_⟩
  · intro b hb
    have hnone : NetDriver.wireBlocks { newcomer tip with chain := chain } 1 0 = [] :=
      wireBlocks_of_lt Nat.one_pos
    rw [show (newcomer tip).chain.head.number = 0 from rfl, hnone] at hb
    cases hb
  · have hserve : NetDriver.wireBlocks { newcomer tip with chain := chain } 1 n =
        (List.range' 1 n).map quietWire := wireBlocks_quiet hquiet
    rw [← hserve] at hextends
    exact hextends

theorem known_newcomer (tip : Nat × Hash) :
    ((newcomer tip).peers.get 9).bind (fun p => p.2.tip) = some tip := by
  rw [newcomer, NetDriver.setTip, NetDriver.setEntry, Table.get_put_self, Option.bind_some]

theorem inFlight_newcomer (tip : Nat × Hash) :
    InFlight (newcomer tip) (requestsSince (newcomer tip) 0 9) := by
  have hnone : requestsSince (newcomer tip) 0 9 = [] := rfl
  rw [hnone]
  exact ⟨by decide, by simp, by simp, fun _ => rfl⟩

-- Three batches from nothing, and a tip that the pull in flight covers.
theorem sync_reaches_tip_three_batches :
    (∃ server : NetDriver, server.chain.head.number = 300 ∧
      ReachesTip heightHost server 9 300 (.start (newcomer (300, 300#256)) 0 9 300)) ∧
    ∃ server : NetDriver, server.chain.head.number = 100 ∧
      ReachesTip heightHost server 9 100
        (.start ((newcomer (100, 100#256)).maybeSync 9 100) 0 9 100) := by
  constructor
  · obtain ⟨server, last, hwf, hhead, hahead⟩ :=
      exists_quiet_server 300 (by decide) (300, 300#256)
    exact ⟨server, hhead, (sync_reaches_tip_iff hwf hhead (by decide) (known_newcomer _) hahead
      (inFlight_newcomer _)).mpr (by decide)⟩
  · obtain ⟨server, last, hwf, hhead, hahead⟩ :=
      exists_quiet_server 100 (by decide) (100, 100#256)
    have hpulled : requestsSince ((newcomer (100, 100#256)).maybeSync 9 100) 0 9 =
        nextPulls 0 100 :=
      requestsSince_maybeSync (List.append_nil _).symm rfl (Or.inl (by decide))
    have hopened : requestsSince ((newcomer (100, 100#256)).maybeSync 9 100) 0 9 = [⟨1, 100⟩] :=
      hpulled
    obtain ⟨hchain, hoverride, hpeers⟩ :=
      maybeSync_keeps (d := newcomer (100, 100#256)) 9 100
    have hlow : ((newcomer (100, 100#256)).maybeSync 9 100).chain.head.number = 0 := by
      rw [hchain]
      rfl
    have hflight : InFlight ((newcomer (100, 100#256)).maybeSync 9 100)
        (requestsSince ((newcomer (100, 100#256)).maybeSync 9 100) 0 9) := by
      rw [hopened]
      refine ⟨by decide, fun r hr => ?_, fun r hr => ?_, fun hnil => (by cases hnil)⟩
      · rw [List.mem_singleton.mp hr, hlow]
        exact ⟨by decide, by decide, by decide⟩
      · rw [hlow]
        cases hr
        decide
    have hahead' : Ahead heightHost server 100
        ((newcomer (100, 100#256)).maybeSync 9 100).validatorOverride
        ((newcomer (100, 100#256)).maybeSync 9 100).chain last := by
      rw [hchain, hoverride]
      exact hahead
    have hserver : server.chain.head.number = (100, 100#256).1 := hhead
    have hknown : (((newcomer (100, 100#256)).maybeSync 9 100).peers.get 9).bind
        (fun p => p.2.tip) = some (100, 100#256) := by
      rw [hpeers]
      exact known_newcomer _
    refine ⟨server, hhead, (sync_reaches_tip_iff hwf hserver ?_ hknown hahead' hflight).mpr ?_⟩
    · rw [hlow]
      decide
    · rw [hlow]
      decide

-- A tip one block past the look-ahead is never pulled toward.
theorem far_behind_node_never_syncs : ∃ (server : NetDriver) (last : Chain),
    WellFormed heightHost server.chain ∧ server.chain.head.number = 8193 ∧
      Ahead heightHost server 8193 (newcomer (8193, 8193#256)).validatorOverride
        (newcomer (8193, 8193#256)).chain last ∧
      InFlight (newcomer (8193, 8193#256)) (requestsSince (newcomer (8193, 8193#256)) 0 9) ∧
      ¬ ReachesTip heightHost server 9 8193 (.start (newcomer (8193, 8193#256)) 0 9 8193) := by
  obtain ⟨server, last, hwf, hhead, hahead⟩ :=
    exists_quiet_server 8193 (by decide) (8193, 8193#256)
  refine ⟨server, last, hwf, hhead, hahead, inFlight_newcomer _, ?_⟩
  rintro ⟨rounds, hreach⟩
  obtain ⟨e, hrun, -, hend, -⟩ := hreach (List.replicate rounds 0) List.length_replicate
  have hshort := run_of_far hwf hhead (by decide) (known_newcomer _) hahead (inFlight_newcomer _)
    (by decide) (by decide) _ hrun
  exact absurd hend hshort.ne

end Ubi2.Node
