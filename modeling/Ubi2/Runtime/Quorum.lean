import Ubi2.Runtime.Humanity

namespace Ubi2.Runtime

section Quorum

variable {α κ : Type} [DecidableEq κ] {key : α → κ} {ok : α → Bool}
variable {items : List (Address × α)} {jurySize quorum : Nat}

-- How many items a key has.
def support (key : α → κ) (items : List (Address × α)) (k : κ) : Nat :=
  items.countP (fun e => key e.2 = k)

theorem support_append (items : List (Address × α)) (e : Address × α) (k : κ) :
    support key (items ++ [e]) k = support key items k + if key e.2 = k then 1 else 0 := by
  simp [support, List.countP_append, List.countP_cons]

-- Two keys share no item.
theorem support_disjoint {k k' : κ} (hne : k ≠ k') (items : List (Address × α)) :
    support key items k + support key items k' ≤ items.length := by
  induction items with
  | nil => exact Nat.le_refl 0
  | cons e items ih =>
    simp only [support, List.countP_cons, decide_eq_true_eq, List.length_cons] at ih ⊢
    by_cases hk : key e.2 = k
    · have hk' : key e.2 ≠ k' := fun h => hne (hk.symm.trans h)
      rw [if_pos hk, if_neg hk']
      omega
    · rw [if_neg hk]
      split_ifs <;> omega

-- Each key that occurs has one group, with the number of its items and the first of them.
structure Grouped (key : α → κ) (items : List (Address × α)) (gs : List (κ × Nat × α)) :
    Prop where
  nodup : (gs.map Prod.fst).Nodup
  covers : ∀ e ∈ items, key e.2 ∈ gs.map Prod.fst
  count : ∀ g ∈ gs, g.2.1 = support key items g.1
  first : ∀ g ∈ gs, ∃ a, items.find? (fun e => key e.2 = g.1) = some (a, g.2.2)

private def bump (k : κ) (g : κ × Nat × α) : κ × Nat × α :=
  if g.1 = k then (g.1, g.2.1 + 1, g.2.2) else g

private theorem fst_bump (k : κ) (g : κ × Nat × α) : (bump k g).1 = g.1 := by
  unfold bump
  split_ifs <;> rfl

private theorem map_bump_of_not_mem {k : κ} {gs : List (κ × Nat × α)}
    (h : k ∉ gs.map Prod.fst) : gs.map (bump k) = gs := by
  induction gs with
  | nil => rfl
  | cons g gs ih =>
    simp only [List.map_cons, List.mem_cons, not_or] at h
    rw [List.map_cons, ih h.2, bump, if_neg (fun heq => h.1 heq.symm)]

private theorem countItem_eq {item : α} {gs : List (κ × Nat × α)}
    (h : (gs.map Prod.fst).Nodup) :
    countItem key item gs =
      if key item ∈ gs.map Prod.fst then gs.map (bump (key item))
      else gs ++ [(key item, 1, item)] := by
  induction gs with
  | nil => rfl
  | cons g gs ih =>
    obtain ⟨k, c, e⟩ := g
    obtain ⟨hnot, hnodup⟩ := List.nodup_cons.mp h
    simp only [countItem]
    by_cases hk : k = key item
    · have hrest : gs.map (bump (key item)) = gs := map_bump_of_not_mem (by rw [← hk]; exact hnot)
      rw [if_pos hk, if_pos (by simp [hk]), List.map_cons, hrest, bump, if_pos hk]
    · have hmem : key item ∈ ((k, c, e) :: gs).map Prod.fst ↔ key item ∈ gs.map Prod.fst := by
        simp only [List.map_cons, List.mem_cons]
        exact ⟨fun h => h.resolve_left (fun heq => hk heq.symm), Or.inr⟩
      rw [if_neg hk, ih hnodup]
      by_cases hin : key item ∈ gs.map Prod.fst
      · rw [if_pos hin, if_pos (hmem.mpr hin), List.map_cons, bump, if_neg hk]
      · rw [if_neg hin, if_neg (fun hm => hin (hmem.mp hm)), List.cons_append]

theorem grouped_quorumGroups (key : α → κ) (items : List (Address × α)) :
    Grouped key items (quorumGroups key items) := by
  induction items using List.reverseRecOn with
  | nil => exact ⟨List.nodup_nil, by simp, by simp [quorumGroups], by simp [quorumGroups]⟩
  | append_singleton items e ih =>
    have hgroups : quorumGroups key (items ++ [e]) =
        countItem key e.2 (quorumGroups key items) := by
      simp [quorumGroups, List.foldl_append]
    rw [hgroups, countItem_eq ih.nodup]
    generalize quorumGroups key items = gs at ih
    by_cases hin : key e.2 ∈ gs.map Prod.fst
    · rw [if_pos hin]
      have hkeys : (gs.map (bump (key e.2))).map Prod.fst = gs.map Prod.fst := by
        rw [List.map_map]
        exact List.map_congr_left (fun g _ => fst_bump _ g)
      refine ⟨by rw [hkeys]; exact ih.nodup, ?_, ?_, ?_⟩
      · intro x hx
        rw [hkeys]
        rcases List.mem_append.mp hx with hx | hx
        · exact ih.covers x hx
        · rw [List.mem_singleton.mp hx]
          exact hin
      · intro g hg
        obtain ⟨g', hg', rfl⟩ := List.mem_map.mp hg
        rw [fst_bump, support_append, ← ih.count g' hg']
        unfold bump
        by_cases hk : g'.1 = key e.2
        · rw [if_pos hk, if_pos hk.symm]
        · rw [if_neg hk, if_neg (fun h => hk h.symm)]
          rfl
      · intro g hg
        obtain ⟨g', hg', rfl⟩ := List.mem_map.mp hg
        obtain ⟨a, ha⟩ := ih.first g' hg'
        have hsnd : (bump (key e.2) g').2.2 = g'.2.2 := by
          unfold bump
          split_ifs <;> rfl
        refine ⟨a, ?_⟩
        rw [fst_bump, hsnd, List.find?_append, ha]
        rfl
    · rw [if_neg hin]
      have hnew : ∀ x ∈ items, key x.2 ≠ key e.2 :=
        fun x hx heq => hin (heq ▸ ih.covers x hx)
      refine ⟨?_, ?_, ?_, ?_⟩
      · rw [List.map_append, List.nodup_append]
        refine ⟨ih.nodup, List.nodup_singleton _, ?_⟩
        intro k hk k' hk' heq
        rw [heq, List.mem_singleton.mp hk'] at hk
        exact hin hk
      · intro x hx
        rw [List.map_append]
        rcases List.mem_append.mp hx with hx | hx
        · exact List.mem_append_left _ (ih.covers x hx)
        · rw [List.mem_singleton.mp hx]
          simp
      · intro g hg
        rw [support_append]
        rcases List.mem_append.mp hg with hg | hg
        · have hk : key e.2 ≠ g.1 :=
            fun heq => hin (heq ▸ List.mem_map.mpr ⟨g, hg, rfl⟩)
          rw [if_neg hk, Nat.add_zero]
          exact ih.count g hg
        · rw [List.mem_singleton.mp hg]
          have hzero : support key items (key e.2) = 0 := by
            rw [support, List.countP_eq_zero]
            intro x hx
            simpa using hnew x hx
          simp [hzero]
      · intro g hg
        rcases List.mem_append.mp hg with hg | hg
        · obtain ⟨a, ha⟩ := ih.first g hg
          exact ⟨a, by rw [List.find?_append, ha]; rfl⟩
        · rw [List.mem_singleton.mp hg]
          have hnone : items.find? (fun x => decide (key x.2 = key e.2)) = none := by
            rw [List.find?_eq_none]
            intro x hx
            simpa using hnew x hx
          refine ⟨e.1, ?_⟩
          rw [List.find?_append, hnone]
          simp

-- A committed item is committable, is the first item of its key, and its key has the
-- quorum.
theorem quorumTally_committed {item : α}
    (h : quorumTally key ok items jurySize quorum = .Committed item) :
    ok item ∧ quorum ≤ support key items (key item) ∧
      ∃ a, items.find? (fun e => key e.2 = key item) = some (a, item) := by
  have hgs := grouped_quorumGroups key items
  unfold quorumTally at h
  dsimp only at h
  cases hfind : (quorumGroups key items).find? (fun g => quorum ≤ g.2.1) with
  | none =>
    rw [hfind] at h
    dsimp only at h
    split_ifs at h
  | some g =>
    rw [hfind] at h
    dsimp only at h
    split_ifs at h with hok
    cases h
    have hmem := List.mem_of_find?_eq_some hfind
    have hcount : quorum ≤ g.2.1 := by simpa using List.find?_some hfind
    obtain ⟨a, ha⟩ := hgs.first g hmem
    have hkey : key g.2.2 = g.1 := by simpa using List.find?_some ha
    rw [hkey, ← hgs.count g hmem]
    exact ⟨hok, hcount, a, ha⟩

theorem mem_keys_of_support {k : κ} (h : 0 < support key items k) :
    k ∈ (quorumGroups key items).map Prod.fst := by
  obtain ⟨e, he, hk⟩ := List.countP_pos_iff.mp h
  have hcovers := (grouped_quorumGroups key items).covers e he
  rwa [← of_decide_eq_true hk]

private theorem exists_group {k : κ} (h : 0 < support key items k) :
    ∃ g ∈ quorumGroups key items, g.2.1 = support key items k := by
  obtain ⟨g, hg, rfl⟩ := List.mem_map.mp (mem_keys_of_support h)
  exact ⟨g, hg, (grouped_quorumGroups key items).count g hg⟩

-- A key that has the quorum, and is the only one to have it, decides a tally.
theorem quorumTally_reached {k : κ} (hquorum : 0 < quorum) (hk : quorum ≤ support key items k)
    (honly : ∀ k', quorum ≤ support key items k' → k' = k) :
    ∃ item, key item = k ∧ quorumTally key ok items jurySize quorum =
      if ok item then .Committed item else .NoQuorum := by
  have hgs := grouped_quorumGroups key items
  obtain ⟨g, hg, hcount⟩ := exists_group (hquorum.trans_le hk)
  cases hfind : (quorumGroups key items).find? (fun g => quorum ≤ g.2.1) with
  | none =>
    have hsmall := List.find?_eq_none.mp hfind g hg
    rw [decide_eq_true_eq] at hsmall
    omega
  | some g' =>
    have hmem := List.mem_of_find?_eq_some hfind
    obtain ⟨a, ha⟩ := hgs.first g' hmem
    have hkey : key g'.2.2 = g'.1 := by simpa using List.find?_some ha
    have hreached : quorum ≤ g'.2.1 := by simpa using List.find?_some hfind
    rw [hgs.count g' hmem] at hreached
    refine ⟨g'.2.2, hkey.trans (honly _ hreached), ?_⟩
    simp [quorumTally, hfind]

-- Where every item is committable, it is committed.
theorem quorumTally_of_support {k : κ} (hok : ∀ item, ok item) (hquorum : 0 < quorum)
    (hk : quorum ≤ support key items k)
    (honly : ∀ k', quorum ≤ support key items k' → k' = k) :
    ∃ item, quorumTally key ok items jurySize quorum = .Committed item ∧ key item = k := by
  obtain ⟨item, hkey, htally⟩ :=
    @quorumTally_reached α κ _ key ok items jurySize quorum k hquorum hk honly
  exact ⟨item, by rw [htally, if_pos (hok item)], hkey⟩

private theorem le_foldl_max {ns : List Nat} {b n : Nat} (h : n ∈ ns ∨ n ≤ b) :
    n ≤ ns.foldl max b := by
  induction ns generalizing b with
  | nil => exact h.resolve_left (List.not_mem_nil)
  | cons m ns ih =>
    apply ih
    rcases h with h | h
    · rcases List.mem_cons.mp h with rfl | h
      · exact Or.inr (le_max_right _ _)
      · exact Or.inl h
    · exact Or.inr (le_trans h (le_max_left _ _))

private theorem support_le_best (key : α → κ) (items : List (Address × α)) (k : κ) :
    support key items k ≤ ((quorumGroups key items).map (fun g => g.2.1)).foldl max 0 := by
  apply le_foldl_max
  rcases Nat.eq_zero_or_pos (support key items k) with hzero | hpos
  · exact Or.inr (by omega)
  · obtain ⟨g, hg, hcount⟩ := exists_group hpos
    exact Or.inl (List.mem_map.mpr ⟨g, hg, hcount⟩)

theorem find_quorumGroups_eq_none (h : ∀ k, support key items k < quorum) :
    (quorumGroups key items).find? (fun g => quorum ≤ g.2.1) = none := by
  rw [List.find?_eq_none]
  intro g hg hcount
  rw [decide_eq_true_eq, (grouped_quorumGroups key items).count g hg] at hcount
  exact absurd (h g.1) (not_lt.mpr hcount)

-- While no key has the quorum and some key can still reach it, a tally waits.
theorem quorumTally_pending {k : κ} (hnone : ∀ k', support key items k' < quorum)
    (hopen : quorum ≤ support key items k + (jurySize - items.length)) :
    quorumTally key ok items jurySize quorum = .Pending := by
  have hbest := support_le_best key items k
  unfold quorumTally
  dsimp only
  rw [find_quorumGroups_eq_none hnone]
  dsimp only
  rw [if_neg (by omega)]

private theorem foldl_max_lt {ns : List Nat} {b n : Nat} (hb : b < n) (h : ∀ m ∈ ns, m < n) :
    ns.foldl max b < n := by
  induction ns generalizing b with
  | nil => exact hb
  | cons m ns ih =>
    exact ih (max_lt hb (h m (by simp))) (fun m' hm' => h m' (by simp [hm']))

-- No key has the quorum, and the jurors who have not voted cannot give it to one.
def OutOfReach (key : α → κ) (items : List (Address × α)) (jurySize quorum : Nat) : Prop :=
  jurySize - items.length < quorum ∧
    ∀ k, support key items k + (jurySize - items.length) < quorum

theorem quorumTally_outOfReach (h : OutOfReach key items jurySize quorum) :
    quorumTally key ok items jurySize quorum = .NoQuorum := by
  have hfind : (quorumGroups key items).find? (fun g => quorum ≤ g.2.1) = none :=
    find_quorumGroups_eq_none fun k => (Nat.le_add_right _ _).trans_lt (h.2 k)
  have hsmall : ∀ n ∈ (quorumGroups key items).map (fun g => g.2.1),
      n < quorum - (jurySize - items.length) := by
    intro n hn
    obtain ⟨g, hg, rfl⟩ := List.mem_map.mp hn
    rw [(grouped_quorumGroups key items).count g hg]
    exact Nat.lt_sub_of_add_lt (h.2 g.1)
  have hbest := foldl_max_lt (Nat.sub_pos_of_lt h.1) hsmall
  unfold quorumTally
  dsimp only
  rw [hfind]
  dsimp only
  rw [if_pos (by omega)]

-- What a tally that has no quorum has seen.
theorem quorumTally_noQuorum (h : quorumTally key ok items jurySize quorum = .NoQuorum) :
    (∃ item, quorum ≤ support key items (key item) ∧ ok item = false) ∨
      OutOfReach key items jurySize quorum := by
  have hgs := grouped_quorumGroups key items
  unfold quorumTally at h
  dsimp only at h
  cases hfind : (quorumGroups key items).find? (fun g => quorum ≤ g.2.1) with
  | some g =>
    rw [hfind] at h
    dsimp only at h
    split_ifs at h with hok
    have hmem := List.mem_of_find?_eq_some hfind
    have hcount : quorum ≤ g.2.1 := by simpa using List.find?_some hfind
    obtain ⟨a, ha⟩ := hgs.first g hmem
    have hkey : key g.2.2 = g.1 := by simpa using List.find?_some ha
    refine Or.inl ⟨g.2.2, ?_, by simpa using hok⟩
    rwa [hkey, ← hgs.count g hmem]
  | none =>
    rw [hfind] at h
    dsimp only at h
    split_ifs at h with hshort
    refine Or.inr ⟨by omega, fun k => ?_⟩
    have hbest := support_le_best key items k
    omega

-- Where every juror has voted, a tally is decided.
theorem quorumTally_ne_pending (hquorum : 0 < quorum) (hall : jurySize ≤ items.length) :
    quorumTally key ok items jurySize quorum ≠ .Pending := by
  unfold quorumTally
  dsimp only
  cases hfind : (quorumGroups key items).find? (fun g => quorum ≤ g.2.1) with
  | some g =>
    dsimp only
    split_ifs <;> simp
  | none =>
    have hsmall : ∀ n ∈ (quorumGroups key items).map (fun g => g.2.1), n < quorum := by
      intro n hn
      obtain ⟨g, hg, rfl⟩ := List.mem_map.mp hn
      simpa using List.find?_eq_none.mp hfind g hg
    have hbest := foldl_max_lt hquorum hsmall
    have hunused : jurySize - items.length = 0 := by omega
    dsimp only
    rw [hunused, if_pos (by omega)]
    simp

end Quorum

theorem tally_ne_pending {votes : List (Address × CanonicalVerdict)} {jurySize : Nat}
    (h : jurySize ≤ votes.length) : tally votes jurySize QUORUM ≠ .Pending := by
  have hdecided : quorumTally CanonicalVerdict.quorumKey CanonicalVerdict.isCommittable votes
      jurySize QUORUM ≠ .Pending := quorumTally_ne_pending (by decide) h
  unfold tally
  split
  · exact fun _ => hdecided ‹_›
  · simp
  · simp

-- An uncertain verdict is never committed.
theorem tally_committed_ne_uncertain {votes : List (Address × CanonicalVerdict)}
    {jurySize quorum : Nat} {v : CanonicalVerdict}
    (h : tally votes jurySize quorum = .Committed v) : v.verdict ≠ .Uncertain := by
  unfold tally at h
  split at h
  · cases h
  · rename_i w hw
    cases h
    have hok := (quorumTally_committed hw).1
    simpa [CanonicalVerdict.isCommittable] using hok
  · cases h

end Ubi2.Runtime
