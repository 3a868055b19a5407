import Ubi2.StatusSnapshot.Format

namespace Ubi2.StatusSnapshot.Sdk

open Ubi2.Lib

-- What `JSON.parse` makes of a text that was written from a value.
mutual

def JsValue.ofJson : Json → JsValue
  | .null => .null
  | .bool value => .bool value
  | .str value => .str value
  | .num value => .integer value
  | .minus value => .integer (-value)
  | .arr items => .arr (JsValue.ofItems items)
  | .obj fields => .obj (JsValue.ofFields fields)

def JsValue.ofItems : List Json → List JsValue
  | [] => []
  | item :: items => JsValue.ofJson item :: JsValue.ofItems items

def JsValue.ofFields : List (String × Json) → List (String × JsValue)
  | [] => []
  | (name, value) :: fields => (name, JsValue.ofJson value) :: JsValue.ofFields fields

end

-- Names that are not those of array elements stay in the order they are written.
def plainNames (names : List String) : Bool :=
  names.Nodup ∧ ∀ name ∈ names, ¬name.toList.all Char.isDigit

-- A document that JavaScript holds as it stands: numbers it counts exactly, and names in order.
mutual

def exact : Json → Bool
  | .num value => value ≤ 9007199254740991
  | .minus value => value ≤ 9007199254740991
  | .arr items => exactItems items
  | .obj fields => plainNames (fields.map Prod.fst) && exactFields fields
  | _ => true

def exactItems : List Json → Bool
  | [] => true
  | item :: items => exact item && exactItems items

def exactFields : List (String × Json) → Bool
  | [] => true
  | (_, value) :: fields => exact value && exactFields fields

end

-- `JSON.parse`
structure JSON where
  parse : String → Except String JsValue

-- A text that was written compactly is read back.
def JSON.ReadsBack (json : JSON) : Prop :=
  ∀ j : Json, exact j = true → json.parse j.compact = .ok (.ofJson j)

theorem ofItems_eq (items : List Json) : JsValue.ofItems items = items.map JsValue.ofJson := by
  induction items with
  | nil => rfl
  | cons item items ih => rw [JsValue.ofItems, ih, List.map_cons]

theorem exactItems_iff (items : List Json) :
    exactItems items = true ↔ ∀ item ∈ items, exact item = true := by
  induction items with
  | nil => simp [exactItems]
  | cons item items ih => rw [exactItems, Bool.and_eq_true, ih, List.forall_mem_cons]

-- A parser of compact texts.
def compactJSON : JSON where
  parse text :=
    match Json.read text with
    | some j => .ok (.ofJson j)
    | none => .error "Unexpected token"

theorem compactJSON_readsBack : compactJSON.ReadsBack := by
  intro j _
  rw [compactJSON]
  simp only [Json.read_compact]

end Ubi2.StatusSnapshot.Sdk
