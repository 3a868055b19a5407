import Mathlib.Data.List.Chain
import Ubi2.Rpc.Finality

namespace Ubi2.Rpc

open Ubi2.Runtime Ubi2.Lib Ubi2.Lib.Encode Ubi2.Exec

-- What becomes of `+ 1` at the largest height: a release build wraps, a build that checks
-- its arithmetic panics.
inductive Overflow where
  | wraps
  | panics
deriving DecidableEq

-- `none` is a panic.
def Overflow.succ (overflow : Overflow) (height : Nat) : Option Nat :=
  if height + 1 < 2 ^ 64 then some (height + 1)
  else
    match overflow with
    | .wraps => some 0
    | .panics => none

-- The walk between two turns of its loop: the turns taken, the block it stands on, and the
-- blocks pushed so far, the tip first.
structure Walk where
  guard : Nat
  cur : ForkBlockEntry
  chain : List ForkBlockEntry

-- `none` as an outcome is a panic.
inductive Walk.Turn where
  | goes (w : Walk)
  | ends (outcome : Option (Option (List ForkBlockEntry × Nat)))

namespace Walk

def start (tip : ForkBlockEntry) : Walk := ⟨0, tip, []⟩

section
variable (overflow : Overflow) (fmap : ForkStore) (g : Inner) (finalized : Nat)

-- One turn of the loop. The heights are 64-bit words.
def turn (w : Walk) : Turn :=
  if WALK_BOUND < w.guard + 1 then .ends (some none)
  else
    match g.canonical w.cur.parentHash with
    | some ca =>
      match overflow.succ ca.number with
      | none => .ends none
      | some above =>
        if w.cur.number ≠ above then .ends (some none)
        else if ca.number < finalized then .ends (some none)
        else .ends (some (some ((w.chain ++ [w.cur]).reverse, ca.number)))
    | none =>
      match fmap.get w.cur.parentHash with
      | none => .ends (some none)
      | some parent =>
        match overflow.succ parent.number with
        | none => .ends none
        | some above =>
          if w.cur.number ≠ above then .ends (some none)
          else .goes ⟨w.guard + 1, parent, w.chain ++ [w.cur]⟩

-- The outcome of the loop. There is none yet while it still goes after so many turns.
def run : Nat → Walk → Option (Option (Option (List ForkBlockEntry × Nat)))
  | 0, _ => none
  | turns + 1, w =>
    match w.turn overflow fmap g finalized with
    | .goes w => run turns w
    | .ends outcome => some outcome

end

end Walk

theorem mem_of_canonical {g : Inner} {hash : Hash} {ca : Block} (h : g.canonical hash = some ca) :
    ca ∈ g.blocks := by
  obtain ⟨e, -, he⟩ := Option.bind_eq_some_iff.mp h
  exact List.mem_of_getElem? he

-- The branch that leads from just above a canonical block up to the tip. Each block stands
-- on the one before it, which is stored, and only the lowest stands on a canonical block.
structure BranchOnto (fmap : ForkStore) (g : Inner) (tip : ForkBlockEntry)
    (branch : List ForkBlockEntry) (ca : Block) : Prop where
  ends : branch.getLast? = some tip
  linked : branch.IsChain fun a b => b.parentHash = a.hash ∧ b.number = a.number + 1
  stored : ∀ e ∈ branch.dropLast, fmap.get e.hash = some e
  lowest : ∀ e ∈ branch.head?, g.canonical e.parentHash = some ca ∧ e.number = ca.number + 1
  above : ∀ e ∈ branch.tail, g.canonical e.parentHash = none

namespace BranchOnto

variable {fmap : ForkStore} {g : Inner} {tip cur parent : ForkBlockEntry}
variable {branch rest : List ForkBlockEntry} {ca : Block}

theorem single (hca : g.canonical cur.parentHash = some ca) (hnumber : cur.number = ca.number + 1) :
    BranchOnto fmap g cur [cur] ca where
  ends := rfl
  linked := List.isChain_singleton _
  stored := by simp
  lowest := by simp [hca, hnumber]
  above := by simp

theorem ne_nil (h : BranchOnto fmap g tip branch ca) : branch ≠ [] := by
  rintro rfl
  cases h.ends

theorem extend (h : BranchOnto fmap g parent rest ca)
    (hget : fmap.get cur.parentHash = some parent) (hca : g.canonical cur.parentHash = none)
    (hnumber : cur.number = parent.number + 1) :
    BranchOnto fmap g cur (rest ++ [cur]) ca := by
  have hkey : parent.hash = cur.parentHash := Table.key_of_get hget
  have hlast : rest.dropLast ++ [parent] = rest := List.dropLast_append_getLast? _ h.ends
  constructor
  case ends => simp
  case linked =>
    refine List.isChain_append.mpr ⟨h.linked, List.isChain_singleton _, ?_⟩
    intro a ha b hb
    rw [h.ends] at ha
    obtain rfl : parent = a := Option.some.inj ha
    obtain rfl : cur = b := by simpa using hb
    exact ⟨hkey.symm, hnumber⟩
  case stored =>
    intro e he
    rw [List.dropLast_concat, ← hlast, List.mem_append, List.mem_singleton] at he
    rcases he with he | rfl
    · exact h.stored e he
    · rw [hkey, hget]
  case lowest =>
    intro e he
    rw [List.head?_append_of_ne_nil _ h.ne_nil] at he
    exact h.lowest e he
  case above =>
    intro e he
    rw [List.tail_append_of_ne_nil h.ne_nil, List.mem_append, List.mem_singleton] at he
    rcases he with he | rfl
    · exact h.above e he
    · exact hca

-- A branch is its tip on a canonical block, or its tip on a shorter branch.
theorem cases (h : BranchOnto fmap g tip branch ca) :
    (branch = [tip] ∧ g.canonical tip.parentHash = some ca ∧ tip.number = ca.number + 1) ∨
    ∃ parent rest, branch = rest ++ [tip] ∧ g.canonical tip.parentHash = none ∧
      fmap.get tip.parentHash = some parent ∧ tip.number = parent.number + 1 ∧
      BranchOnto fmap g parent rest ca := by
  obtain ⟨ends, linked, stored, lowest, above⟩ := h
  obtain ⟨rest, rfl⟩ := List.getLast?_eq_some_iff.mp ends
  cases rest using List.reverseRecOn with
  | nil =>
    obtain ⟨hca, hnumber⟩ := lowest tip rfl
    exact Or.inl ⟨rfl, hca, hnumber⟩
  | append_singleton lower parent =>
    have hne : lower ++ [parent] ≠ [] := by simp
    obtain ⟨hrest, -, hlink⟩ := List.isChain_append.mp linked
    obtain ⟨hparent, hnumber⟩ := hlink parent (by simp) tip (by simp)
    rw [List.dropLast_concat] at stored
    rw [List.tail_append_of_ne_nil hne] at above
    rw [List.head?_append_of_ne_nil _ hne] at lowest
    refine Or.inr ⟨parent, lower ++ [parent], rfl, above tip (by simp), ?_, hnumber, ?_⟩
    · rw [hparent]
      exact stored parent (by simp)
    · refine ⟨by simp, hrest, ?_, lowest, fun e he => above e (List.mem_append_left _ he)⟩
      intro e he
      rw [List.dropLast_concat] at he
      exact stored e (List.mem_append_left _ he)

theorem mem_blocks (h : BranchOnto fmap g tip branch ca) : ca ∈ g.blocks := by
  obtain ⟨e, rest, rfl⟩ := List.exists_cons_of_ne_nil h.ne_nil
  exact mem_of_canonical (h.lowest e rfl).1

-- The heights of a branch count up from the canonical block.
theorem number (h : BranchOnto fmap g tip branch ca) :
    tip.number = ca.number + branch.length := by
  induction hlength : branch.length generalizing tip branch with
  | zero => exact absurd (List.length_eq_zero_iff.mp hlength) h.ne_nil
  | succ n ih =>
    rcases h.cases with ⟨rfl, -, hnumber⟩ | ⟨parent, rest, rfl, -, -, hnumber, hrest⟩
    · rw [List.length_singleton] at hlength
      omega
    · rw [List.length_append, List.length_singleton] at hlength
      have hparent := ih hrest (by omega)
      omega

end BranchOnto

section
variable {overflow : Overflow} {fmap : ForkStore} {g : Inner} {finalized bound : Nat}
variable {cur tip : ForkBlockEntry} {above branch : List ForkBlockEntry} {caHeight : Nat}

theorem assembleForkBranch_iff :
    assembleForkBranch fmap g finalized bound cur above = some (branch, caHeight) ↔
      ∃ lower ca, BranchOnto fmap g cur lower ca ∧ lower.length ≤ bound ∧
        finalized ≤ ca.number ∧ branch = lower ++ above ∧ caHeight = ca.number := by
  induction bound generalizing cur above with
  | zero =>
    constructor
    · intro h
      cases h
    · rintro ⟨lower, ca, hlower, hlength, -⟩
      exact absurd (List.length_eq_zero_iff.mp (Nat.le_zero.mp hlength)) hlower.ne_nil
  | succ bound ih =>
    rw [assembleForkBranch]
    constructor
    · intro h
      split at h
      · rename_i ca hca
        split_ifs at h with hnumber hfinal
        cases h
        exact ⟨[cur], ca, .single hca (not_not.mp hnumber), by simp, by omega, rfl, rfl⟩
      · rename_i hca
        split at h
        · cases h
        · rename_i parent hget
          split_ifs at h with hnumber
          obtain ⟨lower, ca, hlower, hlength, hfinal, rfl, rfl⟩ := ih.mp h
          refine ⟨lower ++ [cur], ca, hlower.extend hget hca (not_not.mp hnumber), ?_, hfinal,
            by simp, rfl⟩
          rw [List.length_append, List.length_singleton]
          omega
    · rintro ⟨lower, ca, hlower, hlength, hfinal, rfl, rfl⟩
      rcases hlower.cases with ⟨rfl, hca, hnumber⟩ | ⟨parent, rest, rfl, hca, hget, hnumber, hrest⟩
      · simp [hca, hnumber, not_lt.mpr hfinal]
      · rw [List.length_append, List.length_singleton] at hlength
        simp only [hca, hget, hnumber, ne_eq, not_true_eq_false, if_false]
        rw [ih]
        exact ⟨rest, ca, hrest, by omega, hfinal, by simp, rfl⟩

theorem succ_of_lt {height : Nat} (h : height + 1 < 2 ^ 64) :
    overflow.succ height = some (height + 1) :=
  if_pos h

-- Only the largest height has another successor, or none.
theorem succ_of_ge {height : Nat} (h : ¬ height + 1 < 2 ^ 64) :
    (overflow = .wraps ∧ overflow.succ height = some 0) ∨
      (overflow = .panics ∧ overflow.succ height = none) := by
  cases overflow with
  | wraps => exact Or.inl ⟨rfl, if_neg h⟩
  | panics => exact Or.inr ⟨rfl, if_neg h⟩

-- No branch stands on a block that far above the canonical ones.
theorem assembleForkBranch_of_ge (hbound : bound ≤ WALK_BOUND)
    (hheights : ∀ ca ∈ g.blocks, ca.number + WALK_BOUND + 1 < 2 ^ 64)
    (hcur : ¬ cur.number + 1 < 2 ^ 64) :
    assembleForkBranch fmap g finalized bound cur above = none := by
  refine Option.eq_none_iff_forall_ne_some.mpr ?_
  rintro ⟨branch, caHeight⟩ h
  obtain ⟨lower, ca, hlower, hlength, -⟩ := assembleForkBranch_iff.mp h
  have hnumber := hlower.number
  have hheight := hheights ca hlower.mem_blocks
  omega

-- Only a build that checks its arithmetic panics.
theorem succ_wraps {height : Nat} : Overflow.wraps.succ height ≠ none := by
  rw [Overflow.succ]
  split_ifs <;> nofun

-- A turn that goes on is counted, and one that ends the loop does not panic on wrapping heights.
theorem turn_goes {w next : Walk} (h : w.turn overflow fmap g finalized = .goes next) :
    next.guard = w.guard + 1 ∧ w.guard < WALK_BOUND := by
  rw [Walk.turn] at h
  split_ifs at h with hguard
  refine ⟨?_, by omega⟩
  split at h
  · split at h
    · cases h
    · split_ifs at h
  · split at h
    · cases h
    · split at h
      · cases h
      · split_ifs at h
        cases h
        rfl

theorem turn_ends {w : Walk} {outcome : Option (Option (List ForkBlockEntry × Nat))}
    (h : w.turn .wraps fmap g finalized = .ends outcome) : outcome ≠ none := by
  rintro rfl
  rw [Walk.turn] at h
  by_cases hguard : WALK_BOUND < w.guard + 1
  · rw [if_pos hguard] at h
    cases h
  rw [if_neg hguard] at h
  split at h
  · split at h
    · rename_i hsucc
      exact succ_wraps hsucc
    · split_ifs at h <;> cases h
  · split at h
    · cases h
    · split at h
      · rename_i hsucc
        exact succ_wraps hsucc
      · split_ifs at h
        cases h

-- The guard ends the loop on every store and every chain.
theorem run_ends {w : Walk} {turns : Nat} (hturns : WALK_BOUND - w.guard < turns) :
    ∃ outcome, w.run overflow fmap g finalized turns = some outcome ∧
      (overflow = .wraps → outcome ≠ none) := by
  induction turns generalizing w with
  | zero => omega
  | succ turns ih =>
    rw [Walk.run]
    cases hturn : w.turn overflow fmap g finalized with
    | ends outcome =>
      refine ⟨outcome, rfl, ?_⟩
      rintro rfl
      exact turn_ends hturn
    | goes next =>
      have hnext := turn_goes hturn
      exact ih (by omega)

-- On canonical heights well below the largest, the loop ends with the branch that its
-- recursion on the turns left assembles.
theorem run_eq_assembleForkBranch {w : Walk} {turns : Nat}
    {outcome : Option (Option (List ForkBlockEntry × Nat))}
    (hheights : ∀ ca ∈ g.blocks, ca.number + WALK_BOUND + 1 < 2 ^ 64)
    (hrun : w.run overflow fmap g finalized turns = some outcome) :
    outcome.join =
      assembleForkBranch fmap g finalized (WALK_BOUND - w.guard) w.cur w.chain.reverse := by
  induction turns generalizing w with
  | zero => cases hrun
  | succ turns ih =>
    rw [Walk.run, Walk.turn] at hrun
    by_cases hguard : WALK_BOUND < w.guard + 1
    · have hleft : WALK_BOUND - w.guard = 0 := by omega
      rw [if_pos hguard] at hrun
      cases hrun
      rw [hleft]
      rfl
    obtain ⟨left, hleft⟩ : ∃ left, WALK_BOUND - w.guard = left + 1 :=
      ⟨WALK_BOUND - w.guard - 1, by omega⟩
    rw [if_neg hguard] at hrun
    rw [hleft, assembleForkBranch]
    cases hca : g.canonical w.cur.parentHash with
    | some ca =>
      have hsmall : ca.number + 1 < 2 ^ 64 := by
        have := hheights ca (mem_of_canonical hca)
        omega
      simp only [hca, succ_of_lt hsmall] at hrun ⊢
      split_ifs at hrun ⊢ <;> cases hrun
      · rfl
      · rfl
      · simp
    | none =>
      cases hget : fmap.get w.cur.parentHash with
      | none =>
        simp only [hca, hget] at hrun
        cases hrun
        rfl
      | some parent =>
        have hnext : WALK_BOUND - (w.guard + 1) = left := by omega
        have hgoes := ih (w := ⟨w.guard + 1, parent, w.chain ++ [w.cur]⟩)
        simp only [hnext, List.reverse_append, List.reverse_singleton, List.singleton_append]
          at hgoes
        simp only [hca, hget] at hrun ⊢
        by_cases hsmall : parent.number + 1 < 2 ^ 64
        · simp only [succ_of_lt hsmall] at hrun
          split_ifs at hrun ⊢
          · cases hrun
            rfl
          · exact hgoes hrun
        · -- the parent has the largest height, which no branch reaches
          have hnone : assembleForkBranch fmap g finalized left parent (w.cur :: w.chain.reverse) =
              none :=
            assembleForkBranch_of_ge (by omega) hheights hsmall
          rw [hnone] at hgoes ⊢
          rw [ite_self]
          have hedge := @succ_of_ge overflow _ hsmall
          rcases hedge with ⟨-, hsucc⟩ | ⟨-, hsucc⟩
          · simp only [hsucc] at hrun
            split_ifs at hrun
            · cases hrun
              rfl
            · exact hgoes hrun
          · simp only [hsucc] at hrun
            cases hrun
            rfl

-- More turns do not change an outcome.
theorem run_of_le {w : Walk} {turns turns' : Nat}
    {outcome : Option (Option (List ForkBlockEntry × Nat))}
    (hle : turns ≤ turns') (h : w.run overflow fmap g finalized turns = some outcome) :
    w.run overflow fmap g finalized turns' = some outcome := by
  induction turns generalizing w turns' with
  | zero => cases h
  | succ turns ih =>
    obtain ⟨turns', rfl⟩ : ∃ n, turns' = n + 1 := ⟨turns' - 1, by omega⟩
    rw [Walk.run] at h ⊢
    cases hturn : w.turn overflow fmap g finalized with
    | goes next =>
      rw [hturn] at h
      exact ih (by omega) h
    | ends outcome =>
      rw [hturn] at h
      exact h

-- The walk ends after as many turns as its bound allows and one, whatever the store and the
-- chain hold. On a chain whose heights are places in memory it returns a branch exactly when
-- one leads up to the tip from a canonical block that is not below the finalized height. Tips
-- are compared by a strict total order.
theorem branch_assembly_exact :
    (∃ outcome, (∀ turns, WALK_BOUND < turns →
        (Walk.start tip).run overflow fmap g finalized turns = some outcome) ∧
      (overflow = .wraps → outcome ≠ none) ∧
      ((∀ (i : Nat) (b : Block), g.blocks[i]? = some b → b.number = i) →
        g.blocks.length + WALK_BOUND < 2 ^ 64 →
        ∀ branch caHeight, outcome = some (some (branch, caHeight)) ↔
          ∃ ca, BranchOnto fmap g tip branch ca ∧ branch.length ≤ WALK_BOUND ∧
            finalized ≤ ca.number ∧ caHeight = ca.number)) ∧
    (∀ a, ¬ forkChoicePrefers a a) ∧
    (∀ a b c, forkChoicePrefers a b → forkChoicePrefers b c → forkChoicePrefers a c) ∧
    ∀ a b, a ≠ b → forkChoicePrefers a b ∨ forkChoicePrefers b a := by
  refine ⟨?_, not_forkChoicePrefers_self, fun _ _ _ => forkChoicePrefers_trans, ?_⟩
  · have hends : ∃ outcome, (Walk.start tip).run overflow fmap g finalized (WALK_BOUND + 1) =
        some outcome ∧ (overflow = .wraps → outcome ≠ none) := run_ends (by omega)
    obtain ⟨outcome, hrun, hwraps⟩ := hends
    refine ⟨outcome, fun turns hturns => run_of_le hturns hrun, hwraps, ?_⟩
    intro hnumbered hlength branch caHeight
    have hheights : ∀ ca ∈ g.blocks, ca.number + WALK_BOUND + 1 < 2 ^ 64 := by
      intro ca hca
      obtain ⟨i, hi⟩ := List.getElem?_of_mem hca
      have hlt := (List.getElem?_eq_some_iff.mp hi).1
      have hnumber := hnumbered i ca hi
      omega
    have hjoin : outcome.join = assembleForkBranch fmap g finalized WALK_BOUND tip [] :=
      run_eq_assembleForkBranch hheights hrun
    rw [← Option.join_eq_some_iff, hjoin, assembleForkBranch_iff]
    constructor
    · rintro ⟨lower, ca, hlower, hbound, hfinal, rfl, hheight⟩
      rw [List.append_nil]
      exact ⟨ca, hlower, hbound, hfinal, hheight⟩
    · rintro ⟨ca, hbranch, hbound, hfinal, hheight⟩
      exact ⟨branch, ca, hbranch, hbound, hfinal, (List.append_nil _).symm, hheight⟩
  · intro a b hne
    by_cases hab : forkChoicePrefers a b
    · exact Or.inl hab
    · exact Or.inr ((forkChoicePrefers_connected hab).resolve_left hne)

end

-- Two blocks on the genesis block of a devnet, and two that are each other's parent.
def sideEntry (number : Nat) (parentHash hash : Hash) : ForkBlockEntry where
  number := number
  parentHash := parentHash
  timestamp := 0#64
  view := 0#32
  txsRoot := 0#256
  stateRoot := 0#256
  proposer := 0#160
  proposerSig := []
  rawTxs := []
  hash := hash

def forkedInner : Inner := (Chain.new devnetHost none 0#64).inner

def lowerFork : ForkBlockEntry := sideEntry 1 forkedInner.head.hash 1#256
def upperFork : ForkBlockEntry := sideEntry 2 1#256 2#256

def forkedStore : ForkStore :=
  Table.ofList ForkBlockEntry.hash
    [lowerFork, upperFork, sideEntry 7 4#256 3#256, sideEntry 7 3#256 4#256]

theorem branch_assembly_exact_forked :
    (Walk.start upperFork).run .panics forkedStore forkedInner 0 (WALK_BOUND + 1) =
      some (some (some ([lowerFork, upperFork], 0))) := by
  have hnumbered : ∀ (i : Nat) (b : Block), forkedInner.blocks[i]? = some b → b.number = i := by
    intro i b hb
    obtain ⟨hi, rfl⟩ := List.getElem?_eq_some_iff.mp hb
    obtain rfl : i = 0 := by
      have : i < 1 := hi
      omega
    rfl
  obtain ⟨outcome, hrun, -, hiff⟩ :=
    (@branch_assembly_exact .panics forkedStore forkedInner 0 upperFork).1
  rw [hrun _ (by omega), Option.some_inj, hiff hnumbered (by decide)]
  have hgenesis : forkedInner.canonical lowerFork.parentHash = some forkedInner.head := by
    decide +kernel
  have hlower : forkedStore.get upperFork.parentHash = some lowerFork := by
    decide +kernel
  have hstored : forkedInner.canonical upperFork.parentHash = none := by
    decide +kernel
  exact ⟨forkedInner.head, (BranchOnto.single hgenesis rfl).extend hlower hstored rfl,
    by decide, Nat.zero_le _, rfl⟩

-- A branch that may be moved to: short enough to be walked, and no deeper than the finalized
-- height.
structure Complete (fmap : ForkStore) (g : Inner) (finalized : Nat) (tip : ForkBlockEntry)
    (branch : List ForkBlockEntry) (ca : Block) : Prop
    extends BranchOnto fmap g tip branch ca where
  short : branch.length ≤ WALK_BOUND
  final : finalized ≤ ca.number

section
variable {fmap : ForkStore} {g : Inner} {currentTip : TipKey} {finalized : Nat}
variable {tip : ForkBlockEntry} {branch : List ForkBlockEntry} {ca : Block} {caHeight : Nat}

theorem complete_iff :
    assembleForkBranch fmap g finalized WALK_BOUND tip [] = some (branch, caHeight) ↔
      ∃ ca, Complete fmap g finalized tip branch ca ∧ caHeight = ca.number := by
  rw [assembleForkBranch_iff]
  constructor
  · rintro ⟨lower, ca, hlower, hshort, hfinal, rfl, hheight⟩
    rw [List.append_nil]
    exact ⟨ca, ⟨hlower, hshort, hfinal⟩, hheight⟩
  · rintro ⟨ca, h, hheight⟩
    exact ⟨branch, ca, h.toBranchOnto, h.short, h.final, (List.append_nil _).symm, hheight⟩

-- The best candidate among some entries: none if no branch of theirs beats the current tip, or
-- one that none of them beats.
def BestOf (fmap : ForkStore) (g : Inner) (currentTip : TipKey) (finalized : Nat)
    (seen : List ForkBlockEntry) : Option ReorgCandidate → Prop
  | none => ∀ tip ∈ seen, forkChoicePrefers tip.tipKey currentTip →
      ∀ branch ca, ¬ Complete fmap g finalized tip branch ca
  | some candidate => ∃ tip ∈ seen, ∃ ca, Complete fmap g finalized tip candidate.branch ca ∧
      forkChoicePrefers tip.tipKey currentTip ∧ candidate.tip = tip.tipKey ∧
      candidate.caHeight = ca.number ∧
      ∀ rival ∈ seen, ∀ branch' ca', Complete fmap g finalized rival branch' ca' →
        ¬ forkChoicePrefers rival.tipKey tip.tipKey

theorem BestOf.skip {seen : List ForkBlockEntry} {best : Option ReorgCandidate}
    {entry : ForkBlockEntry} (h : BestOf fmap g currentTip finalized seen best)
    (hentry : ∀ branch ca, Complete fmap g finalized entry branch ca →
      forkChoicePrefers entry.tipKey currentTip →
        ∃ b, best = some b ∧ ¬ forkChoicePrefers entry.tipKey b.tip) :
    BestOf fmap g currentTip finalized (seen ++ [entry]) best := by
  cases best with
  | none =>
    intro tip htip hbeats branch ca hcomplete
    rcases List.mem_append.mp htip with htip | htip
    · exact h tip htip hbeats branch ca hcomplete
    · obtain rfl := List.mem_singleton.mp htip
      obtain ⟨b, hb, -⟩ := hentry branch ca hcomplete hbeats
      cases hb
  | some candidate =>
    obtain ⟨tip, htip, ca, hcomplete, hbeats, hkey, hheight, hunbeaten⟩ := h
    refine ⟨tip, List.mem_append_left _ htip, ca, hcomplete, hbeats, hkey, hheight, ?_⟩
    intro rival hrival branch' ca' hcomplete' hprefers
    rcases List.mem_append.mp hrival with hrival | hrival
    · exact hunbeaten rival hrival branch' ca' hcomplete' hprefers
    · obtain rfl := List.mem_singleton.mp hrival
      obtain ⟨b, hb, hworse⟩ :=
        hentry branch' ca' hcomplete' (forkChoicePrefers_trans hprefers hbeats)
      cases hb
      exact hworse (hkey ▸ hprefers)

theorem BestOf.step {seen : List ForkBlockEntry} {best : Option ReorgCandidate}
    {entry : ForkBlockEntry} (h : BestOf fmap g currentTip finalized seen best) :
    BestOf fmap g currentTip finalized (seen ++ [entry])
      (betterCandidate fmap g currentTip finalized best entry) := by
  rw [betterCandidate]
  by_cases hbeats : forkChoicePrefers entry.tipKey currentTip
  swap
  · rw [if_pos hbeats]
    exact h.skip fun _ _ _ hbeats' => absurd hbeats' hbeats
  rw [if_neg (not_not.mpr hbeats)]
  cases hassemble : assembleForkBranch fmap g finalized WALK_BOUND entry [] with
  | none =>
    refine h.skip fun branch ca hcomplete _ => ?_
    have hsome := complete_iff.mpr ⟨ca, hcomplete, rfl⟩
    rw [hassemble] at hsome
    cases hsome
  | some p =>
    obtain ⟨branch, caHeight⟩ := p
    obtain ⟨ca, hcomplete, hheight⟩ := complete_iff.mp hassemble
    cases best with
    | none =>
      refine ⟨entry, by simp, ca, hcomplete, hbeats, rfl, hheight, ?_⟩
      intro rival hrival branch' ca' hcomplete' hprefers
      rcases List.mem_append.mp hrival with hrival | hrival
      · exact h rival hrival (forkChoicePrefers_trans hprefers hbeats) branch' ca' hcomplete'
      · obtain rfl := List.mem_singleton.mp hrival
        exact not_forkChoicePrefers_self _ hprefers
    | some b =>
      dsimp only
      split_ifs with hbetter
      · obtain ⟨tip, -, -, -, -, hkey, -, hunbeaten⟩ := h
        refine ⟨entry, by simp, ca, hcomplete, hbeats, rfl, hheight, ?_⟩
        intro rival hrival branch' ca' hcomplete' hprefers
        rcases List.mem_append.mp hrival with hrival | hrival
        · exact hunbeaten rival hrival branch' ca' hcomplete'
            (forkChoicePrefers_trans hprefers (hkey ▸ hbetter))
        · obtain rfl := List.mem_singleton.mp hrival
          exact not_forkChoicePrefers_self _ hprefers
      · exact h.skip fun _ _ _ _ => ⟨b, rfl, hbetter⟩

end

end Ubi2.Rpc
