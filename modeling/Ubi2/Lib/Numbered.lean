import Mathlib.Data.List.Nodup
import Mathlib.Data.List.Range

namespace Ubi2.Lib

variable {α : Type*} {first : Nat} {number : α → Nat} {xs : List α} {x : α}

-- Records that carry consecutive numbers, in the order in which they were made.
def Numbered (first : Nat) (number : α → Nat) (xs : List α) : Prop :=
  xs.map number = List.range' first xs.length

namespace Numbered

theorem nil : Numbered first number [] := rfl

theorem append_iff {ys : List α} :
    Numbered first number (xs ++ ys) ↔
      Numbered first number xs ∧ Numbered (first + xs.length) number ys := by
  rw [Numbered, List.map_append, List.length_append, ← List.range'_append_1]
  constructor
  · intro h
    exact List.append_inj h (by simp)
  · rintro ⟨hx, hy⟩
    rw [hx, hy]

theorem singleton_iff : Numbered first number [x] ↔ number x = first := by
  simp [Numbered]

theorem cons_iff :
    Numbered first number (x :: xs) ↔ number x = first ∧ Numbered (first + 1) number xs := by
  rw [← List.singleton_append, append_iff, singleton_iff]
  rfl

-- The next record takes the number after the last one.
theorem concat (h : Numbered first number xs) (hx : number x = first + xs.length) :
    Numbered first number (xs ++ [x]) :=
  append_iff.mpr ⟨h, singleton_iff.mpr hx⟩

theorem mem_map_iff (h : Numbered first number xs) {n : Nat} :
    n ∈ xs.map number ↔ first ≤ n ∧ n < first + xs.length := by
  rw [h]
  exact List.mem_range'_1

theorem bounds (h : Numbered first number xs) (hx : x ∈ xs) :
    first ≤ number x ∧ number x < first + xs.length :=
  h.mem_map_iff.mp (List.mem_map_of_mem hx)

theorem getElem (h : Numbered first number xs) {k : Nat} (hk : k < xs.length) :
    number xs[k] = first + k := by
  have hget := congrArg (·[k]?) h
  simpa [hk] using hget

end Numbered

end Ubi2.Lib
