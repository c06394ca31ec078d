import MetriEngine.Eav.Value
import MetriEngine.Foundation.FixedWidth

/-!
# Sort keys of the four indexes

The binary keys under which a datom is stored and indexed, and the decoder of the
primary key.
-/
namespace MetriEngine.Eav
open Foundation Storage

abbrev U16 := Fin (2 ^ 16)

/-! ### The primary index -/

/-- Attribute id, transaction id and operation: eleven bytes. -/
def buildEavtSk (attrId : U16) (txId : U64) (op : Bool) : List Byte :=
  beBytes 2 attrId.val ++ beBytes 8 txId.val ++ [if op then 0x01 else 0x00]

def decodeEavtSk (sk : List Byte) : Option (U16 × U64 × Bool) :=
  if sk.length ≠ 11 then none
  else some (Fin.ofNat _ (ofBeBytes (sk.take 2)), Fin.ofNat _ (ofBeBytes ((sk.drop 2).take 8)),
    (sk.drop 10).headD 0 ≠ 0)

/-- The upper bound of the keys of an attribute up to a transaction. -/
def eavtSkAsOf (attrId : U16) (asOfTx : U64) : List Byte := buildEavtSk attrId asOfTx true

/-! ### The secondary indexes -/

def buildAevtSk (entityId : String) (txId : U64) : List Byte :=
  Fin.ofNat 256 (utf8 entityId).length :: utf8 entityId ++ beBytes 8 txId.val

/-- `n as u64`, `n as u128`: two's complement. -/
def Signed.asUnsigned {w : ℕ} (n : Signed w) : ℕ := (n.val % 2 ^ w).toNat

/-- The bits of a double with the order of the numbers. -/
def F64.normalized (d : F64) : BitVec 64 :=
  if d.isNegative then d.bits ^^^ BitVec.allOnes 64 else d.bits ^^^ 0x8000000000000000#64

/-- The bytes of a value in the attribute-value index, after the tag of its type. -/
def avetValueBytes : DatomValue → List Byte
  | .null => []
  | .bool b => [if b then 0x01 else 0x00]
  | .long n => beBytes 8 (n.asUnsigned ^^^ 2 ^ 63)
  | .instant n => beBytes 8 (n.asUnsigned ^^^ 2 ^ 63)
  | .double d => beBytes 8 d.normalized.toNat
  | .str s => (utf8 s).take 31
  | .uuid s => (utf8 s).take 31
  | .ref eid => beBytes 8 eid.val
  | .bigInt n => beBytes 16 (n.asUnsigned ^^^ 2 ^ 127)
  | .geo lat lon => beBytes 8 lat.normalized.toNat ++ beBytes 8 lon.normalized.toNat
  | .array _ => []
  | .bytes _ => []

def avetTag : DatomValue → Byte
  | .array _ => 0xFF
  | .bytes _ => 0xFF
  | v => v.valueType.tag

def buildAvetSk (value : DatomValue) (entityId : String) : List Byte :=
  avetTag value :: avetValueBytes value ++ (utf8 entityId).take 26

def avetSkPrefix (value : DatomValue) : List Byte := buildAvetSk value ""

def buildVaetSk (attrId : U16) (sourceEntityId : String) : List Byte :=
  beBytes 2 attrId.val ++ utf8 sourceEntityId

/-! ### What the primary key tells -/

@[simp] theorem buildEavtSk_length (attrId : U16) (txId : U64) (op : Bool) :
    (buildEavtSk attrId txId op).length = 11 := by
  simp [buildEavtSk]

theorem decodeEavtSk_of_length {sk : List Byte} (h : sk.length ≠ 11) : decodeEavtSk sk = none := by
  rw [decodeEavtSk, if_pos h]

theorem length_of_decodeEavtSk {sk : List Byte} {k : U16 × U64 × Bool}
    (h : decodeEavtSk sk = some k) : sk.length = 11 := by
  by_contra hne
  rw [decodeEavtSk_of_length hne] at h
  cases h

/-- The decoder gives back what the builder was given. -/
@[simp] theorem decodeEavtSk_buildEavtSk (attrId : U16) (txId : U64) (op : Bool) :
    decodeEavtSk (buildEavtSk attrId txId op) = some (attrId, txId, op) := by
  have hattr : (buildEavtSk attrId txId op).take 2 = beBytes 2 attrId.val := by
    rw [buildEavtSk, List.append_assoc]
    exact List.take_left' (beBytes_length _ _)
  have hdrop : (buildEavtSk attrId txId op).drop 2 =
      beBytes 8 txId.val ++ [if op then 0x01 else 0x00] := by
    rw [buildEavtSk, List.append_assoc]
    exact List.drop_left' (beBytes_length _ _)
  have htx : ((buildEavtSk attrId txId op).drop 2).take 8 = beBytes 8 txId.val := by
    rw [hdrop]
    exact List.take_left' (beBytes_length _ _)
  have hop : (buildEavtSk attrId txId op).drop 10 = [if op then 0x01 else 0x00] := by
    rw [show 10 = 2 + 8 from rfl, ← List.drop_drop, hdrop]
    exact List.drop_left' (beBytes_length _ _)
  have hattrId : Fin.ofNat (2 ^ 16) attrId.val = attrId := Fin.ext (Nat.mod_eq_of_lt attrId.isLt)
  have htxId : Fin.ofNat (2 ^ 64) txId.val = txId := Fin.ext (Nat.mod_eq_of_lt txId.isLt)
  rw [decodeEavtSk, if_neg (by simp), hattr, htx, hop,
    ofBeBytes_beBytes (n := 2) (by have := attrId.isLt; norm_num; omega),
    ofBeBytes_beBytes (n := 8) (by have := txId.isLt; norm_num; omega), hattrId, htxId]
  cases op <;> rfl

theorem buildEavtSk_inj {a b : U16} {t u : U64} {o p : Bool} :
    buildEavtSk a t o = buildEavtSk b u p ↔ a = b ∧ t = u ∧ o = p := by
  constructor
  · intro h
    have hdecode := decodeEavtSk_buildEavtSk a t o
    rw [h, decodeEavtSk_buildEavtSk] at hdecode
    cases hdecode
    exact ⟨rfl, rfl, rfl⟩
  · rintro ⟨rfl, rfl, rfl⟩
    rfl

/-- Primary keys sort by attribute, then transaction, then operation. -/
theorem buildEavtSk_lt_iff {a b : U16} {t u : U64} {o p : Bool} :
    buildEavtSk a t o < buildEavtSk b u p ↔ a < b ∨ a = b ∧ (t < u ∨ t = u ∧ o < p) := by
  have hattr (a : U16) : a.val < 256 ^ 2 := by
    have := a.isLt
    norm_num
    omega
  have htx (t : U64) : t.val < 256 ^ 8 := by
    have := t.isLt
    norm_num
    omega
  have hop : ([if o then 0x01 else 0x00] : List Byte) < [if p then 0x01 else 0x00] ↔ o < p := by
    cases o <;> cases p <;> decide
  rw [buildEavtSk, buildEavtSk, List.append_assoc, List.append_assoc,
    append_lt_append_iff (by simp), append_lt_append_iff (by simp),
    beBytes_lt_iff (hattr a) (hattr b), beBytes_lt_iff (htx t) (htx u),
    beBytes_inj (hattr a) (hattr b), beBytes_inj (htx t) (htx u), hop, Fin.lt_def, Fin.lt_def,
    Fin.ext_iff, Fin.ext_iff]

end MetriEngine.Eav
