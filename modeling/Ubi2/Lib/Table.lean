import Mathlib.Data.List.Basic
import Mathlib.Data.List.Pairwise
import Mathlib.Data.Prod.Lex
import Mathlib.Order.Basic
import Mathlib.Tactic.Common

namespace Ubi2.Lib

variable {α κ : Type*} [LinearOrder κ]

-- A keyed store: its records in strictly increasing order of a key that each record
-- carries. The order makes the store canonical, so two stores that answer every
-- lookup alike are equal.
structure Table (key : α → κ) where
  rows : List α
  sorted : rows.Pairwise (fun x y => key x < key y)

namespace Table

variable {key : α → κ}

instance [DecidableEq α] : DecidableEq (Table key) := fun s t =>
  decidable_of_iff (s.rows = t.rows) (by cases s; cases t; simp)

def empty : Table key := ⟨[], List.Pairwise.nil⟩

instance : EmptyCollection (Table key) := ⟨empty⟩

instance : Inhabited (Table key) := ⟨empty⟩

def get (t : Table key) (k : κ) : Option α :=
  t.rows.find? (fun a => key a = k)

def contains (t : Table key) (k : κ) : Bool :=
  (t.get k).isSome

-- One pass: the record goes before the first larger key, or replaces the record of
-- an equal key.
def insertRow (key : α → κ) (a : α) : List α → List α
  | [] => [a]
  | b :: bs =>
    if key a < key b then a :: b :: bs
    else if key a = key b then a :: bs
    else b :: insertRow key a bs

theorem mem_insertRow {a x : α} {l : List α} (h : x ∈ insertRow key a l) :
    x = a ∨ x ∈ l := by
  induction l with
  | nil => simpa [insertRow] using h
  | cons b bs ih =>
    rw [insertRow] at h
    split_ifs at h with hlt heq <;> grind

theorem sorted_insertRow (a : α) {l : List α}
    (h : l.Pairwise (fun x y => key x < key y)) :
    (insertRow key a l).Pairwise (fun x y => key x < key y) := by
  induction l with
  | nil => simp [insertRow]
  | cons b bs ih =>
    obtain ⟨hb, hbs⟩ := List.pairwise_cons.mp h
    rw [insertRow]
    split_ifs with hlt heq
    · refine List.pairwise_cons.mpr ⟨?_, h⟩
      intro x hx
      cases List.mem_cons.mp hx with
      | inl hxb => exact hxb ▸ hlt
      | inr hxbs => exact hlt.trans (hb x hxbs)
    · exact List.pairwise_cons.mpr ⟨fun x hx => heq ▸ hb x hx, hbs⟩
    · refine List.pairwise_cons.mpr ⟨?_, ih hbs⟩
      intro x hx
      cases mem_insertRow hx with
      | inl hxa => exact hxa ▸ lt_of_le_of_ne (not_lt.mp hlt) (Ne.symm heq)
      | inr hxbs => exact hb x hxbs

def put (t : Table key) (a : α) : Table key :=
  ⟨insertRow key a t.rows, sorted_insertRow a t.sorted⟩

def filter (t : Table key) (p : α → Bool) : Table key :=
  ⟨t.rows.filter p, t.sorted.filter p⟩

def erase (t : Table key) (k : κ) : Table key :=
  t.filter (fun a => key a ≠ k)

-- The store built by inserting a list of records from the left.
def ofList (key : α → κ) (l : List α) : Table key :=
  l.foldl put empty

@[ext] theorem ext_rows {s t : Table key} (h : s.rows = t.rows) : s = t := by
  cases s
  cases t
  simp_all

theorem get_eq_some_iff {t : Table key} {k : κ} {a : α} :
    t.get k = some a ↔ a ∈ t.rows ∧ key a = k := by
  obtain ⟨l, hl⟩ := t
  simp only [get]
  induction l with
  | nil => simp
  | cons b bs ih =>
    obtain ⟨hb, hbs⟩ := List.pairwise_cons.mp hl
    simp only [List.find?_cons, List.mem_cons]
    by_cases hk : key b = k
    · simp only [hk, decide_true]
      constructor
      · rintro ⟨rfl⟩
        exact ⟨Or.inl rfl, hk⟩
      · rintro ⟨rfl | hmem, hkey⟩
        · rfl
        · have hlt := hb a hmem
          rw [hk, hkey] at hlt
          exact absurd hlt (lt_irrefl k)
    · simp only [hk, decide_false]
      rw [ih hbs]
      constructor
      · rintro ⟨hmem, hkey⟩
        exact ⟨Or.inr hmem, hkey⟩
      · rintro ⟨rfl | hmem, hkey⟩
        · exact absurd hkey hk
        · exact ⟨hmem, hkey⟩

theorem key_of_get {t : Table key} {k : κ} {a : α} (h : t.get k = some a) : key a = k :=
  (get_eq_some_iff.mp h).2

theorem mem_of_get {t : Table key} {k : κ} {a : α} (h : t.get k = some a) : a ∈ t.rows :=
  (get_eq_some_iff.mp h).1

theorem get_of_mem {t : Table key} {a : α} (h : a ∈ t.rows) : t.get (key a) = some a :=
  get_eq_some_iff.mpr ⟨h, rfl⟩

theorem get_eq_none_iff {t : Table key} {k : κ} :
    t.get k = none ↔ ∀ a ∈ t.rows, key a ≠ k := by
  simp [get]

@[simp] theorem get_empty (k : κ) : (∅ : Table key).get k = none := rfl

@[simp] theorem rows_empty : (∅ : Table key).rows = [] := rfl

private theorem nodup_of_sorted {l : List α}
    (h : l.Pairwise (fun x y => key x < key y)) : l.Nodup := by
  refine List.Pairwise.imp ?_ h
  intro a b hlt heq
  exact lt_irrefl _ (heq ▸ hlt)

private theorem eq_of_mem_iff {l m : List α}
    (hl : l.Pairwise (fun x y => key x < key y))
    (hm : m.Pairwise (fun x y => key x < key y))
    (h : ∀ a, a ∈ l ↔ a ∈ m) : l = m := by
  have hperm : l.Perm m := by
    rw [List.perm_ext_iff_of_nodup (nodup_of_sorted hl) (nodup_of_sorted hm)]
    exact h
  refine hperm.eq_of_pairwise ?_ hl hm
  intro a b _ _ hab hba
  exact absurd (hab.trans hba) (lt_irrefl _)

-- Stores are equal when they hold the same records, or answer every lookup alike.
theorem ext_mem {s t : Table key} (h : ∀ a, a ∈ s.rows ↔ a ∈ t.rows) : s = t :=
  ext_rows (eq_of_mem_iff s.sorted t.sorted h)

theorem ext_get {s t : Table key} (h : ∀ k, s.get k = t.get k) : s = t := by
  apply ext_mem
  intro a
  have hs : a ∈ s.rows ↔ s.get (key a) = some a :=
    ⟨get_of_mem, mem_of_get⟩
  have ht : a ∈ t.rows ↔ t.get (key a) = some a :=
    ⟨get_of_mem, mem_of_get⟩
  rw [hs, ht, h]

theorem get_put (t : Table key) (a : α) (k : κ) :
    (t.put a).get k = if key a = k then some a else t.get k := by
  obtain ⟨l, hl⟩ := t
  simp only [get, put]
  induction l with
  | nil => by_cases h : key a = k <;> simp [insertRow, h]
  | cons b bs ih =>
    obtain ⟨hb, hbs⟩ := List.pairwise_cons.mp hl
    rw [insertRow]
    by_cases hlt : key a < key b
    · rw [if_pos hlt]
      by_cases hk : key a = k <;> simp [hk]
    · rw [if_neg hlt]
      by_cases heq : key a = key b
      · rw [if_pos heq]
        by_cases hk : key a = k
        · simp [hk]
        · have hbk : key b ≠ k := fun h => hk (heq.trans h)
          simp [hk, hbk]
      · rw [if_neg heq]
        simp only [List.find?_cons, ih hbs]
        by_cases hk : key a = k
        · have hbk : key b ≠ k := fun h => heq (hk.trans h.symm)
          simp [hk, hbk]
        · simp [hk]

@[simp] theorem get_put_self (t : Table key) (a : α) : (t.put a).get (key a) = some a := by
  simp [get_put]

theorem get_put_ne {t : Table key} {a : α} {k : κ} (h : key a ≠ k) :
    (t.put a).get k = t.get k := by
  simp [get_put, h]

theorem mem_put {t : Table key} {a x : α} :
    x ∈ (t.put a).rows ↔ x = a ∨ (x ∈ t.rows ∧ key x ≠ key a) := by
  have hx : x ∈ (t.put a).rows ↔ (t.put a).get (key x) = some x :=
    ⟨get_of_mem, mem_of_get⟩
  rw [hx, get_put]
  by_cases hk : key a = key x
  · simp [hk, eq_comm]
  · simp only [hk, if_false]
    constructor
    · intro h
      exact Or.inr ⟨mem_of_get h, fun h => hk h.symm⟩
    · rintro (rfl | ⟨hmem, -⟩)
      · exact absurd rfl hk
      · exact get_of_mem hmem

-- A record with a key above all others goes to the end.
theorem rows_put_of_lt {t : Table key} {a : α} (h : ∀ b ∈ t.rows, key b < key a) :
    (t.put a).rows = t.rows ++ [a] := by
  refine eq_of_mem_iff (t.put a).sorted ?_ (fun x => ?_)
  · rw [List.pairwise_append]
    refine ⟨t.sorted, List.pairwise_singleton _ _, fun b hb c hc => ?_⟩
    rw [List.mem_singleton.mp hc]
    exact h b hb
  · rw [mem_put, List.mem_append, List.mem_singleton]
    constructor
    · rintro (rfl | ⟨hx, -⟩)
      · exact Or.inr rfl
      · exact Or.inl hx
    · rintro (hx | rfl)
      · exact Or.inr ⟨hx, (h x hx).ne⟩
      · exact Or.inl rfl

theorem put_put (t : Table key) {a b : α} (h : key a = key b) :
    (t.put a).put b = t.put b := by
  apply ext_get
  intro k
  simp only [get_put]
  split_ifs <;> simp_all

theorem put_comm (t : Table key) {a b : α} (h : key a ≠ key b) :
    (t.put a).put b = (t.put b).put a := by
  apply ext_get
  intro k
  simp only [get_put]
  split_ifs <;> simp_all

theorem put_of_get {t : Table key} {a : α} (h : t.get (key a) = some a) : t.put a = t := by
  apply ext_get
  intro k
  rw [get_put]
  split_ifs with hk
  · rw [← hk, h]
  · rfl

theorem mem_filter {t : Table key} {p : α → Bool} {a : α} :
    a ∈ (t.filter p).rows ↔ a ∈ t.rows ∧ p a :=
  List.mem_filter

theorem get_filter (t : Table key) (p : α → Bool) (k : κ) :
    (t.filter p).get k = (t.get k).filter p := by
  cases h : t.get k with
  | none =>
    rw [get_eq_none_iff] at h
    rw [Option.filter_none, get_eq_none_iff]
    exact fun a ha => h a (mem_filter.mp ha).1
  | some a =>
    obtain ⟨hmem, hkey⟩ := get_eq_some_iff.mp h
    by_cases hp : p a
    · rw [Option.filter_some_pos hp, get_eq_some_iff]
      exact ⟨mem_filter.mpr ⟨hmem, hp⟩, hkey⟩
    · rw [Option.filter_some_neg (by simpa using hp), get_eq_none_iff]
      intro b hb hbk
      obtain ⟨hbmem, hpb⟩ := mem_filter.mp hb
      have hab : t.get (key b) = some b := get_of_mem hbmem
      rw [hbk, h] at hab
      cases hab
      exact hp hpb

theorem get_erase (t : Table key) (k k' : κ) :
    (t.erase k).get k' = if k' = k then none else t.get k' := by
  rw [erase, get_filter]
  split_ifs with h
  · cases hg : t.get k' with
    | none => rfl
    | some a => simp [Option.filter, key_of_get hg, h]
  · cases hg : t.get k' with
    | none => rfl
    | some a => simp [Option.filter, key_of_get hg, h]

@[simp] theorem contains_eq_true {t : Table key} {k : κ} :
    t.contains k = true ↔ ∃ a, t.get k = some a := by
  simp [contains, Option.isSome_iff_exists]

-- Inserting a list of records: the last record of each key wins.
theorem get_foldl_put (l : List α) (t : Table key) (k : κ) :
    (l.foldl put t).get k = (l.reverse.find? (fun a => key a = k)).or (t.get k) := by
  induction l generalizing t with
  | nil => simp
  | cons a l ih =>
    rw [List.foldl_cons, ih, get_put, List.reverse_cons, List.find?_append]
    by_cases h : key a = k <;> simp [h]

-- A store that records with distinct keys are put into holds those, and what it held under
-- other keys.
theorem get_foldl_put_of_nodup {l : List α} {t : Table key} {k : κ} {a : α}
    (hnodup : (l.map key).Nodup) :
    (l.foldl put t).get k = some a ↔
      (a ∈ l ∧ key a = k) ∨ (k ∉ l.map key ∧ t.get k = some a) := by
  induction l generalizing t with
  | nil => simp
  | cons x l ih =>
    rw [List.map_cons, List.nodup_cons] at hnodup
    rw [List.foldl_cons, ih hnodup.2, get_put]
    by_cases hx : key x = k
    · subst hx
      rw [if_pos rfl, Option.some.injEq]
      constructor
      · rintro (⟨hmem, ha⟩ | ⟨-, rfl⟩)
        · exact absurd (ha ▸ List.mem_map_of_mem hmem) hnodup.1
        · exact Or.inl ⟨List.mem_cons_self, rfl⟩
      · rintro (⟨hmem, ha⟩ | ⟨hnot, -⟩)
        · rcases List.mem_cons.mp hmem with rfl | hmem
          · exact Or.inr ⟨hnodup.1, rfl⟩
          · exact Or.inl ⟨hmem, ha⟩
        · exact absurd List.mem_cons_self hnot
    · rw [if_neg hx]
      simp only [List.map_cons, List.mem_cons, not_or]
      constructor
      · rintro (⟨hmem, ha⟩ | ⟨hnot, hget⟩)
        · exact Or.inl ⟨Or.inr hmem, ha⟩
        · exact Or.inr ⟨⟨Ne.symm hx, hnot⟩, hget⟩
      · rintro (⟨rfl | hmem, ha⟩ | ⟨⟨-, hnot⟩, hget⟩)
        · exact absurd ha hx
        · exact Or.inl ⟨hmem, ha⟩
        · exact Or.inr ⟨hnot, hget⟩

-- Under an injective key no record replaces another one.
theorem mem_foldl_put {l : List α} {t : Table key} {a : α} (hinj : Function.Injective key) :
    a ∈ (l.foldl put t).rows ↔ a ∈ t.rows ∨ a ∈ l := by
  induction l generalizing t with
  | nil => simp
  | cons x l ih =>
    have hput : a ∈ (t.put x).rows ↔ a = x ∨ a ∈ t.rows := by
      rw [mem_put]
      by_cases hax : a = x
      · simp [hax]
      · have hkey : key a ≠ key x := fun h => hax (hinj h)
        simp [hax, hkey]
    rw [List.foldl_cons, ih, hput, List.mem_cons]
    tauto

-- Inserting the rows of a store in any order rebuilds the store.
theorem ofList_perm {t : Table key} {l : List α} (h : l.Perm t.rows) :
    ofList key l = t := by
  have hmem : ∀ a, a ∈ l.reverse ↔ a ∈ t.rows := by
    intro a
    rw [List.mem_reverse, h.mem_iff]
  apply ext_get
  intro k
  have hget := get_foldl_put l (∅ : Table key) k
  have hempty : (∅ : Table key).get k = none := rfl
  rw [hempty, Option.or_none] at hget
  refine hget.trans ?_
  cases hf : l.reverse.find? (fun a => key a = k) with
  | none =>
    symm
    rw [get_eq_none_iff]
    intro a ha
    have := List.find?_eq_none.mp hf a ((hmem a).mpr ha)
    simpa using this
  | some a =>
    symm
    rw [get_eq_some_iff]
    exact ⟨(hmem a).mp (List.mem_of_find?_eq_some hf), by simpa using List.find?_some hf⟩

@[simp] theorem ofList_rows (t : Table key) : ofList key t.rows = t :=
  ofList_perm (List.Perm.refl _)

-- A store that is written into a structure row by row is there as a whole.
theorem foldl_rows {σ : Type*} (build : Table key → σ) {write : σ → α → σ}
    (hwrite : ∀ t a, write (build t) a = build (t.put a)) (t : Table key) :
    t.rows.foldl write (build ∅) = build t := by
  have hfold : t.rows.foldl write (build ∅) = build (ofList key t.rows) :=
    List.foldl_hom build hwrite
  rw [hfold, ofList_rows]

-- A store of bare keys holds the keys that were inserted.
theorem mem_ofList_id {l : List κ} {a : κ} : a ∈ (ofList id l).rows ↔ a ∈ l := by
  have hget := get_foldl_put l (∅ : Table (id : κ → κ)) a
  rw [get_empty, Option.or_none] at hget
  have hiff : a ∈ (ofList id l).rows ↔ (ofList id l).get a = some a :=
    ⟨get_of_mem, mem_of_get⟩
  rw [hiff]
  constructor
  · intro h
    exact List.mem_reverse.mp (List.mem_of_find?_eq_some (hget.symm.trans h))
  · intro h
    refine hget.trans ?_
    cases hfind : l.reverse.find? (fun b => id b = a) with
    | none => simpa using List.find?_eq_none.mp hfind a (List.mem_reverse.mpr h)
    | some b =>
      have hb := List.find?_some hfind
      rw [show b = a by simpa using hb]

theorem nodup_rows (t : Table key) : t.rows.Nodup :=
  nodup_of_sorted t.sorted

end Table

end Ubi2.Lib
