import Mathlib.Tactic.Common
import Mathlib.Tactic.IntervalCases

namespace Ubi2.Lib

-- A JSON document whose numbers are whole: a negative one has its sign in front. The fields of
-- an object keep their order.
inductive Json where
  | null
  | bool (value : Bool)
  | str (value : String)
  | num (value : Nat)
  | minus (value : Nat)
  | arr (items : List Json)
  | obj (fields : List (String × Json))

namespace Json

def quoteMark : Char := Char.ofNat 34
def backslash : Char := Char.ofNat 92

-- The characters that may not stand in a string as they are.
def escape (c : Char) : List Char :=
  if c = quoteMark ∨ c = backslash then [backslash, c]
  else if c.toNat = 8 then [backslash, 'b']
  else if c.toNat = 9 then [backslash, 't']
  else if c.toNat = 10 then [backslash, 'n']
  else if c.toNat = 12 then [backslash, 'f']
  else if c.toNat = 13 then [backslash, 'r']
  else if c.toNat < 32 then
    [backslash, 'u', '0', '0', Nat.digitChar (c.toNat / 16), Nat.digitChar (c.toNat % 16)]
  else [c]

def quote (s : String) : List Char :=
  quoteMark :: (s.toList.flatMap escape ++ [quoteMark])

-- The compact text, without white space. What follows the first entry of a list ends with
-- the closing bracket.
mutual

def render : Json → List Char
  | null => ['n', 'u', 'l', 'l']
  | bool true => ['t', 'r', 'u', 'e']
  | bool false => ['f', 'a', 'l', 's', 'e']
  | str value => quote value
  | num value => Nat.toDigits 10 value
  | minus value => '-' :: Nat.toDigits 10 value
  | arr [] => ['[', ']']
  | arr (item :: items) => '[' :: (render item ++ renderItems items)
  | obj [] => [Char.ofNat 123, Char.ofNat 125]
  | obj ((name, value) :: fields) =>
    Char.ofNat 123 :: (quote name ++ ':' :: (render value ++ renderFields fields))

def renderItems : List Json → List Char
  | [] => [']']
  | item :: items => ',' :: (render item ++ renderItems items)

def renderFields : List (String × Json) → List Char
  | [] => [Char.ofNat 125]
  | (name, value) :: fields => ',' :: (quote name ++ ':' :: (render value ++ renderFields fields))

end

def compact (j : Json) : String := String.ofList j.render

theorem utf8ByteSize_compact_le (j : Json) : j.compact.utf8ByteSize ≤ 4 * j.render.length := by
  have hsize : ∀ cs : List Char, (String.ofList cs).utf8ByteSize ≤ 4 * cs.length := by
    intro cs
    induction cs with
    | nil => rfl
    | cons c cs ih =>
      have hchar := Char.utf8Size_le_four c
      simp only [String.utf8ByteSize, String.toByteArray_ofList, List.utf8Encode,
        List.flatMap_cons, List.size_toByteArray, List.length_append,
        String.length_utf8EncodeChar, List.length_cons] at ih ⊢
      omega
  exact hsize _

-- The character behind a backslash. Of the numbered ones, those of one byte are read.
def readEscape : List Char → Option (Char × List Char)
  | 'u' :: '0' :: '0' :: high :: low :: rest =>
    ((List.range 256).find? fun n =>
      Nat.digitChar (n / 16) = high ∧ Nat.digitChar (n % 16) = low).map fun n =>
        (Char.ofNat n, rest)
  | 'b' :: rest => some (Char.ofNat 8, rest)
  | 't' :: rest => some (Char.ofNat 9, rest)
  | 'n' :: rest => some (Char.ofNat 10, rest)
  | 'f' :: rest => some (Char.ofNat 12, rest)
  | 'r' :: rest => some (Char.ofNat 13, rest)
  | c :: rest => if c = quoteMark ∨ c = backslash then some (c, rest) else none
  | [] => none

def readChar (c : Char) (rest : List Char) : Option (Char × List Char) :=
  if c = backslash then readEscape rest else some (c, rest)

-- The words of JSON.
def readWord : List Char → Option (Json × List Char)
  | 'n' :: 'u' :: 'l' :: 'l' :: rest => some (null, rest)
  | 't' :: 'r' :: 'u' :: 'e' :: rest => some (bool true, rest)
  | 'f' :: 'a' :: 'l' :: 's' :: 'e' :: rest => some (bool false, rest)
  | _ => none

-- The digits a text starts with.
def readDigits (text : List Char) : Nat × List Char :=
  (Nat.ofDigitChars 10 (text.takeWhile Char.isDigit) 0, text.dropWhile Char.isDigit)

-- The rest of a string, whose opening mark has been read.
def readChars : Nat → List Char → Option (List Char × List Char)
  | n + 1, c :: rest =>
    if c = quoteMark then some ([], rest)
    else do
      let (d, rest) ← readChar c rest
      let (ds, rest) ← readChars n rest
      pure (d :: ds, rest)
  | _, _ => none

def readString (text : List Char) : Option (String × List Char) :=
  (readChars text.length text).map fun (s, rest) => (String.ofList s, rest)

mutual

def readValue : Nat → List Char → Option (Json × List Char)
  | n + 1, c :: rest =>
    if c = quoteMark then (readString rest).map fun (s, rest) => (str s, rest)
    else if c.isDigit then
      let (value, rest) := readDigits (c :: rest)
      some (num value, rest)
    else if c = '-' then
      if rest.head?.any Char.isDigit then
        let (value, rest) := readDigits rest
        some (minus value, rest)
      else none
    else if c = '[' then
      if rest.head? = some ']' then some (arr [], rest.tail)
      else do
        let (item, rest) ← readValue n rest
        let (items, rest) ← readItems n rest
        pure (arr (item :: items), rest)
    else if c = Char.ofNat 123 then
      if rest.head? = some (Char.ofNat 125) then some (obj [], rest.tail)
      else do
        let (field, rest) ← readField n rest
        let (fields, rest) ← readFields n rest
        pure (obj (field :: fields), rest)
    else readWord (c :: rest)
  | _, _ => none

def readItems : Nat → List Char → Option (List Json × List Char)
  | n + 1, c :: rest =>
    if c = ']' then some ([], rest)
    else if c = ',' then do
      let (item, rest) ← readValue n rest
      let (items, rest) ← readItems n rest
      pure (item :: items, rest)
    else none
  | _, _ => none

def readField : Nat → List Char → Option ((String × Json) × List Char)
  | n + 1, c :: rest =>
    if c = quoteMark then do
      let (name, rest) ← readString rest
      if rest.head? = some ':' then do
        let (value, rest) ← readValue n rest.tail
        pure ((name, value), rest)
      else none
    else none
  | _, _ => none

def readFields : Nat → List Char → Option (List (String × Json) × List Char)
  | n + 1, c :: rest =>
    if c = Char.ofNat 125 then some ([], rest)
    else if c = ',' then do
      let (field, rest) ← readField n rest
      let (fields, rest) ← readFields n rest
      pure (field :: fields, rest)
    else none
  | _, _ => none

end

-- The document of a compact text.
def read (text : String) : Option Json :=
  match readValue (text.toList.length + 1) text.toList with
  | some (j, []) => some j
  | _ => none

def asStr : Json → Option String
  | str value => some value
  | _ => none

def asNum : Json → Option Nat
  | num value => some value
  | _ => none

def asArr : Json → Option (List Json)
  | arr items => some items
  | _ => none

-- The values of an object that has just these fields, in this order.
def values (names : List String) : Json → Option (List Json)
  | obj fields => if fields.map Prod.fst = names then some (fields.map Prod.snd) else none
  | _ => none

theorem values_obj {names : List String} {fields : List (String × Json)}
    (h : fields.map Prod.fst = names) : (obj fields).values names = some (fields.map Prod.snd) :=
  if_pos h

-- A written character reads back, and does not look like the end of the string.
theorem readChar_escape (c : Char) :
    ∃ head tail, escape c = head :: tail ∧ head ≠ quoteMark ∧
      ∀ rest, readChar head (tail ++ rest) = some (c, rest) := by
  have hof : ∀ n, c.toNat = n → c = Char.ofNat n := by
    rintro n rfl
    exact (Char.ofNat_toNat c).symm
  rw [escape]
  by_cases hmark : c = quoteMark ∨ c = backslash
  · rw [if_pos hmark]
    refine ⟨backslash, [c], rfl, by decide, ?_⟩
    intro rest
    rcases hmark with rfl | rfl <;> rfl
  rw [if_neg hmark]
  by_cases hcontrol : c.toNat < 32
  · have hcases : ∀ n < 32, ∃ head tail, escape (Char.ofNat n) = head :: tail ∧
        head ≠ quoteMark ∧
        ∀ rest, readChar head (tail ++ rest) = some (Char.ofNat n, rest) := by
      intro n hn
      interval_cases n <;> exact ⟨_, _, rfl, by decide, fun _ => rfl⟩
    have hc := hcases c.toNat hcontrol
    rw [Char.ofNat_toNat, escape, if_neg hmark] at hc
    exact hc
  · rw [if_neg (by omega), if_neg (by omega), if_neg (by omega), if_neg (by omega),
      if_neg (by omega), if_neg hcontrol]
    rw [not_or] at hmark
    refine ⟨c, [], rfl, hmark.1, ?_⟩
    intro rest
    rw [readChar, if_neg hmark.2]
    rfl

theorem length_escape_pos (c : Char) : 0 < (escape c).length := by
  obtain ⟨head, tail, h, -⟩ := readChar_escape c
  rw [h]
  exact Nat.succ_pos _

theorem readChars_flatMap {n : Nat} (s rest : List Char) (hn : s.length < n) :
    readChars n (s.flatMap escape ++ quoteMark :: rest) = some (s, rest) := by
  induction s generalizing n with
  | nil =>
    obtain ⟨n, rfl⟩ := Nat.exists_eq_succ_of_ne_zero (by omega : n ≠ 0)
    rw [List.flatMap_nil, List.nil_append, readChars, if_pos rfl]
  | cons c s ih =>
    obtain ⟨n, rfl⟩ := Nat.exists_eq_succ_of_ne_zero (by omega : n ≠ 0)
    obtain ⟨head, tail, hescape, hhead, hread⟩ := readChar_escape c
    rw [List.length_cons] at hn
    rw [List.flatMap_cons, hescape, List.append_assoc, List.cons_append, readChars, if_neg hhead,
      hread]
    simp only [Option.bind_eq_bind, Option.bind_some]
    rw [ih (by omega)]
    rfl

theorem length_le_flatMap (s : List Char) : s.length ≤ (s.flatMap escape).length := by
  induction s with
  | nil => exact Nat.le_refl _
  | cons c s ih =>
    have hpos := length_escape_pos c
    rw [List.flatMap_cons, List.length_append, List.length_cons]
    omega

theorem readString_quote (s : String) (rest : List Char) :
    readString (s.toList.flatMap escape ++ quoteMark :: rest) = some (s, rest) := by
  have hlength := length_le_flatMap s.toList
  have hfuel : s.toList.length < (s.toList.flatMap escape ++ quoteMark :: rest).length := by
    rw [List.length_append, List.length_cons]
    omega
  rw [readString, readChars_flatMap _ _ hfuel, Option.map_some]
  simp only [String.ofList_toList]

-- What may follow a number.
def NoDigit (rest : List Char) : Prop := ∀ c ∈ rest.head?, c.isDigit = false

theorem readDigits_toDigits (n : Nat) {rest : List Char} (hrest : NoDigit rest) :
    readDigits (Nat.toDigits 10 n ++ rest) = (n, rest) := by
  have hdigits : ∀ c ∈ Nat.toDigits 10 n, c.isDigit = true := fun c hc =>
    Nat.isDigit_of_mem_toDigits (by decide) (by decide) hc
  have htake : rest.takeWhile Char.isDigit = [] := by
    cases rest with
    | nil => rfl
    | cons c rest =>
      rw [List.takeWhile_cons, if_neg]
      rw [hrest c rfl]
      exact Bool.false_ne_true
  have hdrop : rest.dropWhile Char.isDigit = rest := by
    cases rest with
    | nil => rfl
    | cons c rest =>
      rw [List.dropWhile_cons, if_neg]
      rw [hrest c rfl]
      exact Bool.false_ne_true
  rw [readDigits, List.takeWhile_append_of_pos hdigits, List.dropWhile_append_of_pos hdigits,
    htake, hdrop, List.append_nil, Nat.ofDigitChars_ten_toDigits]

theorem toDigits_head (n : Nat) :
    ∃ head tail, Nat.toDigits 10 n = head :: tail ∧ head.isDigit = true := by
  obtain ⟨head, tail, h⟩ := List.exists_cons_of_ne_nil (Nat.toDigits_ne_nil (n := n) (b := 10))
  refine ⟨head, tail, h, Nat.isDigit_of_mem_toDigits (b := 10) (by decide) (by decide) (n := n) ?_⟩
  rw [h]
  exact List.mem_cons_self

-- A value does not start as the end of a list or of an object does.
theorem render_ne (j : Json) :
    ∃ head tail, j.render = head :: tail ∧ head ≠ ']' ∧ head ≠ Char.ofNat 125 := by
  cases j with
  | null => exact ⟨'n', _, rfl, by decide, by decide⟩
  | bool value =>
    cases value with
    | false => exact ⟨'f', _, rfl, by decide, by decide⟩
    | true => exact ⟨'t', _, rfl, by decide, by decide⟩
  | str value => exact ⟨quoteMark, _, rfl, by decide, by decide⟩
  | minus value => exact ⟨'-', _, rfl, by decide, by decide⟩
  | num value =>
    obtain ⟨head, tail, h, hdigit⟩ := toDigits_head value
    refine ⟨head, tail, by rw [render, h], ?_, ?_⟩
    · rintro rfl
      exact absurd hdigit (by decide)
    · rintro rfl
      exact absurd hdigit (by decide)
  | arr items =>
    cases items with
    | nil => exact ⟨'[', _, rfl, by decide, by decide⟩
    | cons item items => exact ⟨'[', _, rfl, by decide, by decide⟩
  | obj fields =>
    cases fields with
    | nil => exact ⟨Char.ofNat 123, _, rfl, by decide, by decide⟩
    | cons field fields => exact ⟨Char.ofNat 123, _, rfl, by decide, by decide⟩

theorem noDigit_renderItems (items : List Json) (rest : List Char) :
    NoDigit (renderItems items ++ rest) := by
  cases items with
  | nil => simp [NoDigit, renderItems]
  | cons item items => simp [NoDigit, renderItems]

theorem noDigit_renderFields (fields : List (String × Json)) (rest : List Char) :
    NoDigit (renderFields fields ++ rest) := by
  cases fields with
  | nil => simp [NoDigit, renderFields]
  | cons field fields => simp [NoDigit, renderFields]

theorem readField_render {name : String} {value : Json} {n : Nat} {rest : List Char}
    (hvalue : readValue n (value.render ++ rest) = some (value, rest)) :
    readField (n + 1) (quote name ++ ':' :: (value.render ++ rest)) =
      some ((name, value), rest) := by
  rw [quote, List.cons_append, List.append_assoc, readField, if_pos rfl, List.singleton_append,
    readString_quote]
  simp only [Option.bind_eq_bind, Option.bind_some, List.head?_cons, if_true, List.tail_cons,
    hvalue]
  rfl

mutual

theorem readValue_render (j : Json) {n : Nat} {rest : List Char} (hn : j.render.length ≤ n)
    (hrest : NoDigit rest) : readValue n (j.render ++ rest) = some (j, rest) := by
  obtain ⟨head, tail, hhead, -, -⟩ := render_ne j
  cases n with
  | zero =>
    rw [hhead] at hn
    cases hn
  | succ n =>
    cases j with
    | str value =>
      rw [render, quote, List.cons_append, List.append_assoc, readValue, if_pos rfl,
        List.singleton_append, readString_quote]
      rfl
    | null => rfl
    | bool value => cases value <;> rfl
    | num value =>
      rw [render] at hhead
      obtain ⟨_, _, hdigits, hdigit⟩ := toDigits_head value
      rw [hhead] at hdigits
      cases hdigits
      have hmark : head ≠ quoteMark := by
        rintro rfl
        exact absurd hdigit (by decide)
      have hread := readDigits_toDigits value hrest
      rw [hhead, List.cons_append] at hread
      rw [render, hhead, List.cons_append, readValue, if_neg hmark, if_pos hdigit, hread]
    | minus value =>
      obtain ⟨first, more, hdigits, hdigit⟩ := toDigits_head value
      have hread := readDigits_toDigits value hrest
      rw [hdigits, List.cons_append] at hread
      rw [render, hdigits, List.cons_append, List.cons_append, readValue, if_neg (by decide),
        if_neg (by decide), if_pos rfl, List.head?_cons, Option.any_some, if_pos hdigit, hread]
    | arr items =>
      cases items with
      | nil => rfl
      | cons item items =>
        obtain ⟨first, more, hfirst, hne, -⟩ := render_ne item
        have hend : (item.render ++ (renderItems items ++ rest)).head? ≠ some ']' := by
          rw [hfirst]
          simpa using hne
        rw [render, List.length_cons, List.length_append] at hn
        rw [render, List.cons_append, List.append_assoc, readValue, if_neg (by decide),
          if_neg (by decide), if_neg (by decide), if_pos rfl, if_neg hend,
          readValue_render item (by omega) (noDigit_renderItems items rest)]
        simp only [Option.bind_eq_bind, Option.bind_some]
        rw [readItems_render items (by omega)]
        rfl
    | obj fields =>
      cases fields with
      | nil => rfl
      | cons field fields =>
        obtain ⟨name, value⟩ := field
        rw [render, List.length_cons, List.length_append, List.length_cons,
          List.length_append] at hn
        have hquote : 2 ≤ (quote name).length := by simp [quote]
        obtain ⟨n, rfl⟩ := Nat.exists_eq_succ_of_ne_zero (by omega : n ≠ 0)
        have hvalue := readValue_render value (n := n) (by omega)
          (noDigit_renderFields fields rest)
        have hend : (quote name ++ ':' :: (value.render ++ (renderFields fields ++ rest))).head? ≠
            some (Char.ofNat 125) := by
          rw [quote, List.cons_append, List.head?_cons]
          decide
        rw [render, List.cons_append, List.append_assoc, List.cons_append, List.append_assoc,
          readValue, if_neg (by decide), if_neg (by decide), if_neg (by decide),
          if_neg (by decide), if_pos rfl, if_neg hend, readField_render hvalue]
        simp only [Option.bind_eq_bind, Option.bind_some]
        rw [readFields_render fields (by omega)]
        rfl

theorem readItems_render (items : List Json) {n : Nat} {rest : List Char}
    (hn : (renderItems items).length ≤ n) :
    readItems n (renderItems items ++ rest) = some (items, rest) := by
  cases n with
  | zero => cases items <;> simp [renderItems] at hn
  | succ n =>
    cases items with
    | nil => rfl
    | cons item items =>
      rw [renderItems, List.length_cons, List.length_append] at hn
      rw [renderItems, List.cons_append, List.append_assoc, readItems, if_neg (by decide),
        if_pos rfl, readValue_render item (by omega) (noDigit_renderItems items rest)]
      simp only [Option.bind_eq_bind, Option.bind_some]
      rw [readItems_render items (by omega)]
      rfl

theorem readFields_render (fields : List (String × Json)) {n : Nat} {rest : List Char}
    (hn : (renderFields fields).length ≤ n) :
    readFields n (renderFields fields ++ rest) = some (fields, rest) := by
  cases n with
  | zero => cases fields <;> simp [renderFields] at hn
  | succ n =>
    cases fields with
    | nil => rfl
    | cons field fields =>
      obtain ⟨name, value⟩ := field
      have hquote : 2 ≤ (quote name).length := by simp [quote]
      rw [renderFields, List.length_cons, List.length_append, List.length_cons,
        List.length_append] at hn
      obtain ⟨n, rfl⟩ := Nat.exists_eq_succ_of_ne_zero (by omega : n ≠ 0)
      have hvalue := readValue_render value (n := n) (by omega)
        (noDigit_renderFields fields rest)
      rw [renderFields, List.cons_append, List.append_assoc, List.cons_append, List.append_assoc,
        readFields, if_neg (by decide), if_pos rfl, readField_render hvalue]
      simp only [Option.bind_eq_bind, Option.bind_some]
      rw [readFields_render fields (by omega)]
      rfl

end

-- What was written reads back.
theorem read_compact (j : Json) : read j.compact = some j := by
  have hlist : j.compact.toList = j.render := String.toList_ofList
  have hread : readValue (j.render.length + 1) (j.render ++ []) = some (j, []) :=
    readValue_render j (by omega) (by simp [NoDigit])
  rw [List.append_nil] at hread
  rw [read, hlist, hread]

theorem compact_inj {j k : Json} : j.compact = k.compact ↔ j = k := by
  refine ⟨fun h => ?_, fun h => by rw [h]⟩
  have hread := read_compact j
  rw [h, read_compact] at hread
  exact (Option.some.inj hread).symm

end Json

end Ubi2.Lib
