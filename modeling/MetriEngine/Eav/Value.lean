import MetriEngine.Storage.Value

/-!
# Datom values and their form in storage

A typed value is written as one attribute value and read back from it. Twelve types
share five forms, so some values come back under another type.
-/
namespace MetriEngine.Eav
open Foundation Storage

/-! ### Numbers -/

/-- The signed integers of `w` bits. -/
abbrev Signed (w : ℕ) := { z : ℤ // -2 ^ (w - 1) ≤ z ∧ z < 2 ^ (w - 1) }

theorem Signed.zero_bounds : -2 ^ (64 - 1) ≤ (0 : ℤ) ∧ (0 : ℤ) < 2 ^ (64 - 1) := by norm_num

/-- `str::parse` at a signed integer type. -/
def Signed.parse (w : ℕ) (text : String) : Option (Signed w) :=
  (parseSigned text.toList).bind fun z =>
    if h : -2 ^ (w - 1) ≤ z ∧ z < 2 ^ (w - 1) then some ⟨z, h⟩ else none

def Signed.text {w : ℕ} (n : Signed w) : String := toString n.val

theorem Signed.parse_text {w : ℕ} (n : Signed w) : Signed.parse w n.text = some n := by
  rw [Signed.parse, Signed.text, parseSigned_toString, Option.bind_some, dif_pos n.property]

theorem Signed.parse_eq_none_iff {w : ℕ} {text : String} {z : ℤ}
    (h : parseSigned text.toList = some z) :
    Signed.parse w text = none ↔ ¬ (-2 ^ (w - 1) ≤ z ∧ z < 2 ^ (w - 1)) := by
  rw [Signed.parse, h, Option.bind_some]
  split_ifs with hz <;> simp [hz]

/-- An integer text fits `i128` if it fits `i64`. -/
theorem Signed.parse_none_of_wider {text : String} (h : Signed.parse 128 text = none) :
    Signed.parse 64 text = none := by
  cases hz : parseSigned text.toList with
  | none => simp [Signed.parse, hz]
  | some z =>
    rw [Signed.parse_eq_none_iff hz] at h ⊢
    intro hfits
    apply h
    norm_num at hfits ⊢
    omega

theorem digits_of_parseNat {cs : List Char} {n : ℕ} (h : parseNat cs = some n) :
    ∀ c ∈ cs, c.isDigit = true := by
  unfold parseNat at h
  split_ifs at h with hcs
  exact List.all_eq_true.mp hcs.2

/-- An integer text has digits after an optional sign, and nothing else. -/
theorem chars_of_parseSigned {cs : List Char} {z : ℤ} (h : parseSigned cs = some z) :
    ∀ c ∈ cs, c.isDigit = true ∨ c = '-' ∨ c = '+' := by
  have hdigits {cs : List Char} (hcs : parseNat cs ≠ none) : ∀ c ∈ cs, c.isDigit = true := by
    obtain ⟨n, hn⟩ := Option.ne_none_iff_exists'.mp hcs
    exact digits_of_parseNat hn
  unfold parseSigned at h
  split at h
  · rename_i cs
    intro c hc
    rcases List.mem_cons.mp hc with rfl | hc
    · exact Or.inr (Or.inl rfl)
    · exact Or.inl (hdigits (by rintro hn; simp [hn] at h) c hc)
  · rename_i cs
    intro c hc
    rcases List.mem_cons.mp hc with rfl | hc
    · exact Or.inr (Or.inr rfl)
    · exact Or.inl (hdigits (by rintro hn; simp [hn] at h) c hc)
  · intro c hc
    exact Or.inl (hdigits (by rintro hn; simp [hn] at h) c hc)

theorem plain_of_parse {w : ℕ} {text : String} {n : Signed w} (h : Signed.parse w text = some n) :
    '.' ∉ text.toList ∧ 'e' ∉ text.toList ∧ 'E' ∉ text.toList := by
  obtain ⟨z, hz, _⟩ := Option.bind_eq_some_iff.mp h
  have hchars := chars_of_parseSigned hz
  refine ⟨?_, ?_, ?_⟩ <;> intro hc <;> exact absurd (hchars _ hc) (by decide)

abbrev U64 := Fin (2 ^ 64)

/-- The bits of an IEEE 754 double. -/
@[ext] structure F64 where
  bits : BitVec 64
deriving DecidableEq

namespace F64

/-- The bits below the sign. -/
def magnitude (d : F64) : ℕ := d.bits.toNat % 2 ^ 63

def isNaN (d : F64) : Bool := 0x7FF0000000000000 < d.magnitude

/-- `*d < 0.0` -/
def isNegative (d : F64) : Bool := d.bits.msb && d.magnitude ≠ 0 && !d.isNaN

def exponent (d : F64) : ℕ := d.magnitude / 2 ^ 52

def mantissa (d : F64) : ℕ := d.magnitude % 2 ^ 52 + if d.exponent = 0 then 0 else 2 ^ 52

/-- `d.fract() == 0.0`: the double is `mantissa * 2 ^ (max exponent 1 - 1075)`. -/
def isIntegral (d : F64) : Bool :=
  d.exponent < 2047 && d.mantissa % 2 ^ (1075 - max d.exponent 1) = 0

/-- `*d as i64`: truncated, at most as far from zero as `i64` goes, zero for a NaN. -/
def toI64 (d : F64) : ℤ :=
  if d.isNaN then 0
  else
    let size : ℕ := d.mantissa * 2 ^ (max d.exponent 1 - 1075) / 2 ^ (1075 - max d.exponent 1)
    if d.bits.msb then max (-size) (-2 ^ 63) else min size (2 ^ 63 - 1)

theorem toI64_bounds (d : F64) : -2 ^ 63 ≤ d.toI64 ∧ d.toI64 < 2 ^ 63 := by
  unfold toI64
  dsimp only
  generalize d.mantissa * 2 ^ (max d.exponent 1 - 1075) / 2 ^ (1075 - max d.exponent 1) = size
  split_ifs with hnan hsign <;> omega

end F64

/-- The decimal texts of doubles: `Display` writes the shortest decimal that reads
back as the same double, without an exponent, and with a point in it unless the
double is an integer. -/
class F64Text where
  display : F64 → String
  parse : String → Option F64
  parse_display : ∀ d : F64, d.isNaN = false → parse (display d) = some d
  display_point : ∀ d : F64, d.exponent < 2047 → d.isIntegral = false → '.' ∈ (display d).toList

/-! ### Values -/

inductive ValueType
  | null
  | boolean
  | long
  | double
  | string
  | uuid
  | reference
  | array
  | bytes
  | bigInt
  | instant
  | geo
deriving DecidableEq

def ValueType.tag : ValueType → Byte
  | .null => 0x00
  | .boolean => 0x01
  | .long => 0x02
  | .double => 0x03
  | .string => 0x04
  | .uuid => 0x05
  | .reference => 0x06
  | .array => 0x07
  | .bytes => 0x08
  | .bigInt => 0x09
  | .instant => 0x0A
  | .geo => 0x0B

theorem ValueType.tag_injective : Function.Injective ValueType.tag := by
  intro a b h
  cases a <;> cases b <;> first | rfl | exact absurd h (by decide)

def ValueType.isAvetIndexable : ValueType → Bool
  | .bytes => false
  | .array => false
  | .null => false
  | _ => true

inductive DatomValue
  | null
  | bool (b : Bool)
  | long (n : Signed 64)
  | double (d : F64)
  | str (s : String)
  | uuid (s : String)
  | ref (r : U64)
  | array (items : List String)
  | bytes (blob : List Byte)
  | bigInt (n : Signed 128)
  | instant (n : Signed 64)
  | geo (lat lon : F64)
deriving DecidableEq

namespace DatomValue

def valueType : DatomValue → ValueType
  | null => .null
  | bool _ => .boolean
  | long _ => .long
  | double _ => .double
  | str _ => .string
  | uuid _ => .uuid
  | ref _ => .reference
  | array _ => .array
  | bytes _ => .bytes
  | bigInt _ => .bigInt
  | instant _ => .instant
  | geo .. => .geo

def hasNaN : DatomValue → Bool
  | double d => d.isNaN
  | geo lat lon => lat.isNaN || lon.isNaN
  | _ => false

end DatomValue

/-! ### Storage -/

/-- How JSON writes a character inside a string. -/
def jsonChar (c : Char) : String :=
  if c = '"' then "\\\""
  else if c = '\\' then "\\\\"
  else if c.toNat = 8 then "\\b"
  else if c.toNat = 9 then "\\t"
  else if c.toNat = 10 then "\\n"
  else if c.toNat = 12 then "\\f"
  else if c.toNat = 13 then "\\r"
  else if c.toNat < 32 then
    "\\u00" ++ (if c.toNat < 16 then "0" else "1") ++ String.singleton (Nat.digitChar (c.toNat % 16))
  else String.singleton c

def jsonString (s : String) : String := "\"" ++ String.join (s.toList.map jsonChar) ++ "\""

/-- `serde_json::to_string` of strings. -/
def jsonStrings (items : List String) : String :=
  "[" ++ ",".intercalate (items.map jsonString) ++ "]"

section Stored
variable [F64Text]

/-- The attribute value under `v` that `base_datom_attrs` writes. -/
def DatomValue.stored : DatomValue → AttributeValue
  | .str s => .s s
  | .uuid s => .s s
  | .long n => .n n.text
  | .instant n => .n n.text
  | .double d => .n (F64Text.display d)
  | .bool b => .bool b
  | .ref eid => .n (toString eid.val)
  | .array items => .s (jsonStrings items)
  | .bytes blob => .b blob
  | .bigInt n => .n n.text
  | .geo lat lon => .s (F64Text.display lat ++ "," ++ F64Text.display lon)
  | .null => .null true

/-- What a number text is read as: `i64`, else `i128`, else `f64`. -/
def extractNumber (text : String) : Option DatomValue :=
  match Signed.parse 64 text with
  | some n => some (.long n)
  | none =>
    if '.' ∉ text.toList ∧ 'e' ∉ text.toList ∧ 'E' ∉ text.toList then
      match Signed.parse 128 text with
      | some n => some (.bigInt n)
      | none => (F64Text.parse text).map .double
    else (F64Text.parse text).map .double

/-- What a stored attribute value is read as. -/
def extractStored : AttributeValue → Option DatomValue
  | .s text => some (.str text)
  | .n text => extractNumber text
  | .bool b => some (.bool b)
  | .b blob => some (.bytes blob)
  | .null _ => some .null

def extractDatomValue (item : Item) : Option DatomValue := (item.lookup "v").bind extractStored

/-- The value as a reader shows it once it was stored. -/
def DatomValue.shown (v : DatomValue) : Option DatomValue := extractStored v.stored

/-- `datom_value_to_string`: the text that a value filter compares with what is stored. -/
def DatomValue.queryText : DatomValue → String
  | .str s => s
  | .uuid s => s
  | .ref r => toString r.val
  | .instant n => n.text
  | .long n => n.text
  | .double d => if d.isIntegral then toString d.toI64 else F64Text.display d
  | .bool b => if b then "true" else "false"
  | _ => ""

/-! ### Values that survive -/

theorem extractNumber_of_integer {text : String} {n : Signed 64}
    (h : Signed.parse 64 text = some n) : extractNumber text = some (.long n) := by
  rw [extractNumber, h]

/-- A text that is no integer in reach of `i128` is read as a double. -/
theorem extractNumber_of_none {text : String} (h : Signed.parse 128 text = none) :
    extractNumber text = (F64Text.parse text).map .double := by
  rw [extractNumber, Signed.parse_none_of_wider h, h]
  simp

/-- An integer text in reach of `i128` is never read as a double. -/
theorem extractNumber_ne_double {text : String} {n : Signed 128}
    (h : Signed.parse 128 text = some n) (hdigits : '.' ∉ text.toList ∧ 'e' ∉ text.toList ∧
      'E' ∉ text.toList) (d : F64) : extractNumber text ≠ some (.double d) := by
  unfold extractNumber
  cases Signed.parse 64 text with
  | some m => simp
  | none => simp [h, hdigits]

/-- The values that storage gives back as they are: a big integer beyond `i64`, a
double whose text is no integer in reach of `i128`, and the types with a form of
their own. -/
def DatomValue.SurvivesStorage : DatomValue → Prop
  | .null => True
  | .bool _ => True
  | .long _ => True
  | .str _ => True
  | .bytes _ => True
  | .double d => Signed.parse 128 (F64Text.display d) = none
  | .bigInt n => ¬ (-2 ^ 63 ≤ n.val ∧ n.val < 2 ^ 63)
  | _ => False

/-- Reading a double back. -/
theorem shown_double {d : F64} (hd : d.isNaN = false) :
    (DatomValue.double d).shown = some (.double d) ↔
      Signed.parse 128 (F64Text.display d) = none := by
  constructor
  · intro h
    by_contra hsome
    obtain ⟨n, hn⟩ := Option.ne_none_iff_exists'.mp hsome
    exact extractNumber_ne_double hn (plain_of_parse hn) d h
  · intro h
    have hparse := F64Text.parse_display d hd
    simp only [DatomValue.shown, DatomValue.stored, extractStored]
    rw [extractNumber_of_none h, hparse]
    rfl

theorem shown_bigInt (n : Signed 128) :
    (DatomValue.bigInt n).shown = some (.bigInt n) ↔ ¬ (-2 ^ 63 ≤ n.val ∧ n.val < 2 ^ 63) := by
  have hz : parseSigned n.text.toList = some n.val := parseSigned_toString n.val
  have hnone : Signed.parse 64 n.text = none ↔ ¬ (-2 ^ 63 ≤ n.val ∧ n.val < 2 ^ 63) :=
    Signed.parse_eq_none_iff hz
  rw [← hnone]
  simp only [DatomValue.shown, DatomValue.stored, extractStored, extractNumber]
  cases h : Signed.parse 64 n.text with
  | some m => simp
  | none => simp [Signed.parse_text, plain_of_parse (Signed.parse_text n)]

/-- Storage gives a value back, type and content, exactly where it survives. -/
theorem shown_eq_self_iff (v : DatomValue) (hv : v.hasNaN = false) :
    v.shown = some v ↔ v.SurvivesStorage := by
  cases v with
  | double d => exact shown_double hv
  | bigInt n => exact shown_bigInt n
  | long n =>
    simp only [DatomValue.SurvivesStorage, iff_true]
    exact extractNumber_of_integer (Signed.parse_text n)
  | instant n =>
    simp only [DatomValue.SurvivesStorage, iff_false]
    have hlong : (DatomValue.instant n).shown = some (.long n) :=
      extractNumber_of_integer (Signed.parse_text n)
    simp [hlong]
  | ref r =>
    simp only [DatomValue.SurvivesStorage, iff_false, DatomValue.shown, DatomValue.stored,
      extractStored, extractNumber]
    cases Signed.parse 64 (toString r.val) with
    | some n => simp
    | none =>
      cases Signed.parse 128 (toString r.val) with
      | some n => split_ifs <;> simp
      | none => split_ifs <;> simp
  | _ => simp [DatomValue.shown, DatomValue.stored, extractStored, DatomValue.SurvivesStorage]

end Stored

/-! ### A text form -/

/-- The bits in decimal, with a point after them unless the double is an integer. -/
def bitsDisplay (d : F64) : String :=
  if d.exponent < 2047 ∧ d.isIntegral = false then toString d.bits.toNat ++ "."
  else toString d.bits.toNat

def bitsParse (text : String) : Option F64 :=
  (parseNat (text.toList.takeWhile fun c => c ≠ '.')).map fun n => ⟨BitVec.ofNat 64 n⟩

theorem takeWhile_repr (n : ℕ) (l : List Char) (hl : l = [] ∨ l = ['.']) :
    ((Nat.repr n).toList ++ l).takeWhile (fun c => c ≠ '.') = (Nat.repr n).toList := by
  have hdigit : ∀ c ∈ (Nat.repr n).toList, decide (c ≠ '.') = true := by
    intro c hc
    have hd := digits_of_parseNat (parseNat_repr n) c hc
    simp only [ne_eq, decide_not, Bool.not_eq_true', decide_eq_false_iff_not]
    rintro rfl
    exact absurd hd (by decide)
  rw [List.takeWhile_append_of_pos hdigit]
  rcases hl with rfl | rfl <;> simp

/-- The text of any bits is read as these bits. -/
theorem bitsParse_bitsDisplay (d : F64) : bitsParse (bitsDisplay d) = some d := by
  have hdigits : ∀ l : List Char, l = [] ∨ l = ['.'] →
      (parseNat (((Nat.repr d.bits.toNat).toList ++ l).takeWhile fun c => c ≠ '.')).map
        (fun n => (⟨BitVec.ofNat 64 n⟩ : F64)) = some d := by
    intro l hl
    rw [takeWhile_repr _ l hl, parseNat_repr, Option.map_some, BitVec.ofNat_toNat,
      BitVec.setWidth_eq]
  unfold bitsParse bitsDisplay
  split_ifs
  · rw [String.toList_append]
    exact hdigits _ (Or.inr rfl)
  · have hplain := hdigits [] (Or.inl rfl)
    rw [List.append_nil] at hplain
    exact hplain

/-- A text form of doubles that meets the two laws. -/
@[reducible] def bitsText : F64Text where
  display := bitsDisplay
  parse := bitsParse
  parse_display d _ := bitsParse_bitsDisplay d
  display_point d hd hi := by
    unfold bitsDisplay
    rw [if_pos ⟨hd, hi⟩, String.toList_append]
    exact List.mem_append_right _ (by decide)

end MetriEngine.Eav
