import Ubi2.Lib.Encode
import Ubi2.Lib.IsoTime

namespace Ubi2.Lib

-- The bytes of a text are of that text only.
theorem utf8_injective :
    Function.Injective fun s : String => s.toUTF8.data.toList.map UInt8.toBitVec := by
  intro s t h
  have hdata : s.toUTF8.data = t.toUTF8.data :=
    Array.toList_inj.mp (List.map_injective_iff.mpr (fun _ _ heq => UInt8.toBitVec_inj.mp heq) h)
  exact String.toByteArray_inj.mp (ByteArray.ext hdata)

namespace Decimal

theorem value_concat (ds : List Char) (c : Char) :
    value (ds ++ [c]) = value ds * 10 + Hex.digitValue c := by
  rw [value, List.foldl_append, List.foldl_cons, List.foldl_nil, ← value]

theorem digitChar_digitValue {c : Char} (h : c.isDigit = true) :
    Nat.digitChar (Hex.digitValue c) = c ∧ Hex.digitValue c < 10 := by
  have hrange : 48 ≤ c.toNat ∧ c.toNat ≤ 57 := Char.isDigit_iff_toNat.mp h
  obtain ⟨hlow, hhigh⟩ := hrange
  have hback : c = Char.ofNat c.toNat := (Char.ofNat_toNat c).symm
  generalize c.toNat = n at hlow hhigh hback
  subst hback
  interval_cases n <;> decide

theorem value_lt {ds : List Char} (h : ∀ c ∈ ds, c.isDigit = true) :
    value ds < 10 ^ ds.length := by
  induction ds using List.reverseRecOn with
  | nil => decide
  | append_singleton ds c ih =>
    have hlt := (digitChar_digitValue (h c (by simp))).2
    have hds := ih fun d hd => h d (List.mem_append_left _ hd)
    rw [value_concat, List.length_append, List.length_singleton, Nat.pow_succ]
    omega

-- As many digits of one number are the same digits.
theorem eq_of_value {ds ds' : List Char} (h : ∀ c ∈ ds, c.isDigit = true)
    (h' : ∀ c ∈ ds', c.isDigit = true) (hlength : ds.length = ds'.length)
    (hvalue : value ds = value ds') : ds = ds' := by
  induction ds using List.reverseRecOn generalizing ds' with
  | nil => exact (List.length_eq_zero_iff.mp hlength.symm).symm
  | append_singleton ds c ih =>
    rcases List.eq_nil_or_concat' ds' with rfl | ⟨ds', c', rfl⟩
    · rw [List.length_append, List.length_singleton] at hlength
      cases hlength
    · obtain ⟨hchar, hlt⟩ := digitChar_digitValue (h c (by simp))
      obtain ⟨hchar', hlt'⟩ := digitChar_digitValue (h' c' (by simp))
      rw [value_concat, value_concat] at hvalue
      have hdigit : Hex.digitValue c = Hex.digitValue c' := by omega
      have hrest : value ds = value ds' := by omega
      rw [List.length_append, List.length_append, List.length_singleton, List.length_singleton]
        at hlength
      have hds := ih (fun d hd => h d (List.mem_append_left _ hd))
        (fun d hd => h' d (List.mem_append_left _ hd)) (by omega) hrest
      rw [hds, ← hchar, hdigit, hchar']

end Decimal

end Ubi2.Lib
