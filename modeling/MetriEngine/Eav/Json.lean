import MetriEngine.Eav.Reader

/-!
# JSON

The values that requests carry and rows are made of, and the two ways in which a datom
value becomes one: as the outbox and the sagas write it, and as a row shows it.
-/
namespace MetriEngine.Eav
open Foundation Storage

/-! ### Doubles -/

namespace F64

def isFinite (d : F64) : Bool := d.exponent < 2047

/-- The double nearest to `size`, the even one of two that are as near, of the sign `sign`. -/
def ofNat (sign : Bool) (size : ℕ) : F64 :=
  let magnitude :=
    if size = 0 then 0
    else
      let e := size.log2
      let scaled :=
        if e ≤ 52 then size * 2 ^ (52 - e)
        else
          let unit := 2 ^ (e - 52)
          let rest := size % unit
          let up := unit < 2 * rest ∨ unit = 2 * rest ∧ (size / unit) % 2 = 1
          size / unit + if up then 1 else 0
      -- a mantissa that rounds up to the next power of two carries into the exponent
      (e + 1023) * 2 ^ 52 + (scaled - 2 ^ 52)
  ⟨BitVec.ofNat 64 (magnitude + if sign then 2 ^ 63 else 0)⟩

/-- `n as f64` -/
def ofInt (z : ℤ) : F64 := ofNat (decide (z < 0)) z.natAbs

/-- The double nearest to `num / den`, the even one of two that are as near, where the
quotient is at least one. -/
def ofRatio (num den : ℕ) : F64 :=
  let e := (num / den).log2
  let num' := if e ≤ 52 then num * 2 ^ (52 - e) else num
  let den' := if e ≤ 52 then den else den * 2 ^ (e - 52)
  let rest := num' % den'
  let up := den' < 2 * rest ∨ den' = 2 * rest ∧ (num' / den') % 2 = 1
  ⟨BitVec.ofNat 64 ((e + 1023) * 2 ^ 52 + (num' / den' + (if up then 1 else 0) - 2 ^ 52))⟩

/-- Where a double lies among the others, the two zeros in one place. -/
def place (d : F64) : ℤ := if d.bits.msb then -(d.magnitude : ℤ) else d.magnitude

/-- `a == b` -/
def eq (a b : F64) : Bool := !a.isNaN && !b.isNaN && decide (a.place = b.place)

/-- `a < b` -/
def lt (a b : F64) : Bool := !a.isNaN && !b.isNaN && decide (a.place < b.place)

/-- `a <= b` -/
def le (a b : F64) : Bool := !a.isNaN && !b.isNaN && decide (a.place ≤ b.place)

/-- The three ways of writing a number agree: 3, its double, and the integer it is. -/
example : (ofInt 3).bits = 0x4008000000000000 ∧ (ofInt (-3)).toI64 = -3 ∧
    (ofInt (2 ^ 53 + 1)).eq (ofInt (2 ^ 53)) = true := by decide +kernel

end F64

/-! ### Values -/

/-- The integers of a JSON number: those of `i64` and those of `u64`. -/
abbrev JsonInt := { z : ℤ // -2 ^ 63 ≤ z ∧ z < 2 ^ 64 }

inductive JsonNumber
  | int (z : JsonInt)
  | float (d : F64)
deriving DecidableEq

namespace JsonNumber

def ofSigned (n : Signed 64) : JsonNumber :=
  .int ⟨n.val, n.property.1, n.property.2.trans (by norm_num)⟩

/-- `Number::from_f64`: nothing for a NaN and for the infinities. -/
def ofF64 (d : F64) : Option JsonNumber := if d.isFinite then some (.float d) else none

def asI64 : JsonNumber → Option (Signed 64)
  | int z => if h : z.val < 2 ^ 63 then some ⟨z.val, z.property.1, h⟩ else none
  | float _ => none

def asF64 : JsonNumber → F64
  | int z => F64.ofInt z.val
  | float d => d

@[simp] theorem asI64_ofSigned (n : Signed 64) : (ofSigned n).asI64 = some n := by
  simp only [ofSigned, asI64]
  rw [dif_pos n.property.2]

end JsonNumber

inductive JsonValue
  | null
  | bool (b : Bool)
  | number (n : JsonNumber)
  | string (s : String)
  | array (items : List JsonValue)
  | object (entries : List (String × JsonValue))

namespace JsonValue

mutual

def same : JsonValue → JsonValue → Bool
  | null, null => true
  | bool a, bool b => a == b
  | number a, number b => decide (a = b)
  | string a, string b => decide (a = b)
  | array a, array b => sameItems a b
  | object a, object b => sameEntries a b
  | _, _ => false

def sameItems : List JsonValue → List JsonValue → Bool
  | [], [] => true
  | a :: rest, b :: rest' => same a b && sameItems rest rest'
  | _, _ => false

def sameEntries : List (String × JsonValue) → List (String × JsonValue) → Bool
  | [], [] => true
  | (k, a) :: rest, (k', b) :: rest' => decide (k = k') && same a b && sameEntries rest rest'
  | _, _ => false

end

mutual

theorem same_iff : ∀ {a b : JsonValue}, same a b = true ↔ a = b
  | null, b => by cases b <;> simp [same]
  | bool _, b => by cases b <;> simp [same]
  | number _, b => by cases b <;> simp [same]
  | string _, b => by cases b <;> simp [same]
  | array _, b => by cases b <;> simp [same, sameItems_iff]
  | object _, b => by cases b <;> simp [same, sameEntries_iff]

theorem sameItems_iff : ∀ {a b : List JsonValue}, sameItems a b = true ↔ a = b
  | [], b => by cases b <;> simp [sameItems]
  | _ :: _, b => by cases b <;> simp [sameItems, same_iff, sameItems_iff]

theorem sameEntries_iff : ∀ {a b : List (String × JsonValue)}, sameEntries a b = true ↔ a = b
  | [], b => by cases b <;> simp [sameEntries]
  | (_, _) :: _, [] => by simp [sameEntries]
  | (_, _) :: _, (_, _) :: _ => by simp [sameEntries, same_iff, sameEntries_iff]

end

instance : DecidableEq JsonValue := fun _ _ => decidable_of_iff _ same_iff

def asStr : JsonValue → Option String
  | string s => some s
  | _ => none

def asF64 : JsonValue → Option F64
  | number n => some n.asF64
  | _ => none

def isNull : JsonValue → Bool
  | null => true
  | _ => false

def ofF64 (d : F64) : JsonValue := ((JsonNumber.ofF64 d).map number).getD null

def strings (items : List String) : JsonValue := array (items.map string)

end JsonValue

/-- An object, the keys in their order. -/
abbrev JsonMap := OrdMap String JsonValue

def JsonValue.asObject : JsonValue → Option JsonMap
  | .object entries => some ((∅ : JsonMap).insertList entries)
  | _ => none

/-- The crates that texts go through: the parser of JSON, and Base64. -/
class Codecs where
  parseJson : String → Option JsonValue
  base64Encode : List Byte → String

/-- Texts that are no JSON, and blobs that are not shown. -/
@[reducible] def plainCodecs : Codecs := ⟨fun _ => none, fun _ => ""⟩

/-! ### Datom values as JSON -/

section Codecs
variable [Codecs]

/-- A text in brackets or in braces is read as JSON where it is. -/
def embedded (s : String) : JsonValue :=
  if (Text.startsWith s "\x7b" && Text.endsWith s "\x7d") || (Text.startsWith s "[" && Text.endsWith s "]")
  then (Codecs.parseJson s).getD (.string s)
  else .string s

/-- `datom_value_to_json` -/
def datomValueToJson : DatomValue → JsonValue
  | .null => .null
  | .bool b => .bool b
  | .long n => .number (.ofSigned n)
  | .instant n => .number (.ofSigned n)
  | .double d => .ofF64 d
  | .str s => embedded s
  | .uuid s => embedded s
  | .ref r => .string (toString r.val)
  | .array items => .array (items.map embedded)
  | .bytes blob => .string (Codecs.base64Encode blob)
  | .bigInt n => .string n.text
  | .geo lat lon => .object
      (((JsonNumber.ofF64 lat).map fun n => ("lat", JsonValue.number n)).toList ++
        ((JsonNumber.ofF64 lon).map fun n => ("lon", JsonValue.number n)).toList)

def datomMapToJson (map : EntityMap) : JsonMap := map.mapValues datomValueToJson

@[simp] theorem lookup_datomMapToJson (map : EntityMap) (name : String) :
    (datomMapToJson map).lookup name = (map.lookup name).map datomValueToJson :=
  OrdMap.lookup_mapValues _ _ _

end Codecs
end MetriEngine.Eav
