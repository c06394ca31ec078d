import MetriEngine.Storage.EntityDirectory
import MetriEngine.Storage.FsstSymbolTable
import MetriEngine.Storage.PaxTimeTravel

/-!
# The columnar zone as bytes

After a magic come the entity type, the versions, the chains of rows, the symbols and the columns,
and zeros fill up to a multiple of 64 bytes. A text with a symbol is written as its code. The
secondary index, the bitmap of active rows and the directory are not written: a reader makes them
again from the rest.
-/
namespace MetriEngine.Storage.PaxMvcc
open Foundation Envelope
open Eav (Signed)

/-! ### The zone with its table of symbols -/

/-- The zone with the symbols of its texts and with all fields of its directory. -/
structure CompressedZone extends PaxMvccZone where
  fsstTable : FsstSymbolTable
  entityDirectory : EntityDirectory

/-- Every text is interned; whether there was room for it is not asked. -/
def internValue (t : FsstSymbolTable) (attr : String × MbfCellValue) : FsstSymbolTable :=
  match attr.2 with
  | .text s => (t.internOrEscape s).1
  | _ => t

namespace CompressedZone

def new (entityType : String) : CompressedZone :=
  { PaxMvccZone.new entityType with
    fsstTable := .new
    entityDirectory := ⟨.empty, 0, [], []⟩ }

section Hashed
variable [FileDigests]

/-- An upsert of the zone that interns the texts, attribute by attribute. -/
def upsertEntity (z : CompressedZone) (u : Upsert) : Option CompressedZone :=
  (z.toPaxMvccZone.upsertEntity u.entityId u.epochId u.attributes).bind fun upserted =>
    (EntityDirectory.buildFromMap upserted.1.primaryKeyIndex).map fun directory =>
      { upserted.1 with
        fsstTable := u.attributes.entries.foldl internValue z.fsstTable
        entityDirectory := directory }

def upsertAll (z : CompressedZone) (ups : List Upsert) : Option CompressedZone :=
  ups.foldlM upsertEntity z

end Hashed
end CompressedZone

/-! ### Words and texts -/

def zone1Magic : List Byte := utf8 "MBFZ1PAX"

def readU32 : MbfReader ℕ := readLe 4 (corrupt "Unexpected EOF reading u32 in Zone 1")

def readU64 : MbfReader ℕ := readLe 8 (corrupt "Unexpected EOF reading u64 in Zone 1")

def writeU32 (n : ℕ) : List Byte := leBytes 4 (n % 2 ^ 32)

def writeU64 (n : ℕ) : List Byte := leBytes 8 (n % 2 ^ 64)

def writeText (s : String) : List Byte := writeU32 (utf8 s).length ++ utf8 s

/-- `to_le_bytes` of an integer of `8 * n` bits. -/
def writeSigned (n : ℕ) (z : Signed (8 * n)) : List Byte :=
  leBytes n (BitVec.ofInt (8 * n) z.val).toNat

def readSigned (n : ℕ) (err : DomainError) : MbfReader (Signed (8 * n)) :=
  (fun k => ⟨(BitVec.ofNat (8 * n) k).toInt, BitVec.le_toInt _, BitVec.toInt_lt⟩) <$> readLe n err

section Formats
variable [WireFormats]

def readText : MbfReader String := do
  let len ← readU32
  WireFormats.fromUtf8Lossy <$> takeBytes len (corrupt "Unexpected EOF reading string in Zone 1")

end Formats

/-! ### Cells -/

namespace MbfCellValue

def writeBinary : MbfCellValue → List Byte
  | .null => [0]
  | .bool b => [1, if b then 1 else 0]
  | .int64 v => 2 :: writeSigned 8 v
  | .float64 bits => 3 :: leBytes 8 bits.toNat
  | .decimal128 v => 4 :: writeSigned 16 v
  | .text s => 5 :: writeText s
  | .bytes b => 6 :: (writeU32 b.length ++ b)

/-- The lengths in a cell fit the four bytes that hold them. -/
def Fits : MbfCellValue → Prop
  | .text s => (utf8 s).length < 2 ^ 32
  | .bytes b => b.length < 2 ^ 32
  | _ => True

instance : DecidablePred Fits
  | .text s => inferInstanceAs (Decidable ((utf8 s).length < 2 ^ 32))
  | .bytes b => inferInstanceAs (Decidable (b.length < 2 ^ 32))
  | .null | .bool _ | .int64 _ | .float64 _ | .decimal128 _ => inferInstanceAs (Decidable True)

section Formats
variable [WireFormats]

/-- What follows the tag of a cell. -/
def readPayload (tag : Byte) : MbfReader MbfCellValue :=
  match tag.val with
  | 0 => return .null
  | 1 => do return .bool ((← takeByte (corrupt "Unexpected EOF reading Bool cell")) != 0)
  | 2 => do return .int64 (← readSigned 8 (corrupt "Unexpected EOF reading Int64 cell"))
  | 3 => do
    return .float64 (BitVec.ofNat 64 (← readLe 8 (corrupt "Unexpected EOF reading Float64 cell")))
  | 4 => do return .decimal128 (← readSigned 16 (corrupt "Unexpected EOF reading Decimal128 cell"))
  | 5 => do
    let len ← readLe 4 (corrupt "Unexpected EOF reading Text length")
    let raw ← takeBytes len (corrupt "Unexpected EOF reading Text payload")
    return .text (WireFormats.fromUtf8Lossy raw)
  | 6 => do
    let len ← readLe 4 (corrupt "Unexpected EOF reading Bytes length")
    return .bytes (← takeBytes len (corrupt "Unexpected EOF reading Bytes payload"))
  | other => throw (corrupt ("Invalid MbfCellValue binary tag: " ++ toString other))

def readBinary : MbfReader MbfCellValue :=
  takeByte (corrupt "Unexpected EOF reading MbfCellValue tag") >>= readPayload

end Formats
end MbfCellValue

/-- The next byte, which stays. -/
def peekByte (err : DomainError) : MbfReader Byte
  | [] => .error err
  | b :: bytes => .ok (b, b :: bytes)

def symbolTag : Byte := 7

/-- A text with a symbol is its code behind the tag. -/
def writeCell (t : FsstSymbolTable) (cell : MbfCellValue) : List Byte :=
  match cell with
  | .text s =>
    match t.symbolToCode.lookup s with
    | some symCode => [symbolTag, symCode]
    | none => cell.writeBinary
  | _ => cell.writeBinary

/-- The symbol behind the tag. -/
def readSymbol (t : FsstSymbolTable) : MbfReader MbfCellValue := do
  let _ ← takeByte (corrupt "Unexpected EOF in Zone 1 column cells")
  let code ← takeByte (corrupt "Unexpected EOF reading FSST symbol code")
  match t.decodeSymbol code with
  | some text => return .text text
  | none => throw (corrupt ("Unknown FSST symbol code " ++ toString code.val))

/-! ### The zone -/

def writeVersion (v : MvccRowVersion) : List Byte :=
  writeU32 v.rowId ++ (writeU64 v.txAssertEpoch ++ writeU64 v.txRetractEpoch)

def readVersion : MbfReader MvccRowVersion := do
  let rowId ← readU32
  let txAssertEpoch ← readU64
  return ⟨rowId, txAssertEpoch, ← readU64⟩

def writeChain (e : String × List ℕ) : List Byte :=
  writeText e.1 ++ (writeU32 e.2.length ++ e.2.flatMap writeU32)

def writeColumn (t : FsstSymbolTable) (col : String × List MbfCellValue) : List Byte :=
  writeText col.1 ++ (writeU32 col.2.length ++ col.2.flatMap (writeCell t))

namespace CompressedZone

/-- What is written after the magic. -/
def zoneBytes (z : CompressedZone) : List Byte :=
  writeText z.entityType ++ (writeU32 z.mvccVersions.length ++
    (z.mvccVersions.flatMap writeVersion ++ (writeU32 z.primaryKeyIndex.entries.length ++
    (z.primaryKeyIndex.entries.flatMap writeChain ++ (writeU32 z.fsstTable.symbols.length ++
    (z.fsstTable.symbols.flatMap writeText ++ (writeU32 z.columns.entries.length ++
    z.columns.entries.flatMap (writeColumn z.fsstTable))))))))

def encodeZoneBinary (z : CompressedZone) : List Byte :=
  MbfPartitionWireSnapshot.padTo64 (zone1Magic ++ z.zoneBytes)

end CompressedZone

/-- What stands in the bytes of a zone. -/
structure ZoneRecord where
  entityType : String
  mvccVersions : List MvccRowVersion
  chains : List (String × List ℕ)
  symbols : List String
  columns : List (String × List MbfCellValue)

section Formats
variable [WireFormats]

def readChain : MbfReader (String × List ℕ) := do
  let eid ← readText
  let rCount ← readU32
  return (eid, ← readMany readU32 rCount)

def readCell (t : FsstSymbolTable) : MbfReader MbfCellValue := do
  let tag ← peekByte (corrupt "Unexpected EOF in Zone 1 column cells")
  if tag = symbolTag then readSymbol t else MbfCellValue.readBinary

def readColumn (t : FsstSymbolTable) : MbfReader (String × List MbfCellValue) := do
  let colName ← readText
  let cellCount ← readU32
  return (colName, ← readMany (readCell t) cellCount)

/-- What follows the magic; cells are read with the symbols before them. -/
def readZone : MbfReader ZoneRecord := do
  let entityType ← readText
  let mvccCount ← readU32
  let mvccVersions ← readMany readVersion mvccCount
  let pkCount ← readU32
  let chains ← readMany readChain pkCount
  let symCount ← readU32
  let symbols ← readMany readText symCount
  let colCount ← readU32
  let columns ← readMany (readColumn (.internAll symbols)) colCount
  return ⟨entityType, mvccVersions, chains, symbols, columns⟩

end Formats

/-! ### What a reader makes again -/

/-- One cell of a column in the secondary index. -/
def postCell (colName : String) (avet : OrdMap (String ×ₗ String) (List ℕ))
    (entry : MbfCellValue × ℕ) : OrdMap (String ×ₗ String) (List ℕ) :=
  match canonicalValue entry.1 with
  | some value =>
    let key := toLex (colName, value)
    avet.insert key ((avet.lookup key).getD [] ++ [entry.2 % 2 ^ 32])
  | none => avet

def postColumn (avet : OrdMap (String ×ₗ String) (List ℕ)) (col : String × List MbfCellValue) :
    OrdMap (String ×ₗ String) (List ℕ) :=
  col.2.zipIdx.foldl (postCell col.1) avet

/-- The bits of the active rows. Nothing stands for the panic of a row number without a word. -/
def visibilityWords (versions : List MvccRowVersion) : Option Bitmap :=
  let requiredBlocks := max ((versions.length + mbfRowGroupSize - 1) / mbfRowGroupSize) 1
  versions.foldlM (fun words ver =>
    if ver.txRetractEpoch = MvccRowVersion.activeEpoch then
      if ver.rowId / 64 < words.length then some (words.setBit ver.rowId) else none
    else some words) (List.replicate (requiredBlocks * 64) 0#64)

section Hashed
variable [FileDigests]

/-- The zone of a record, or nothing when a panic ends the call. -/
def ZoneRecord.toZone (r : ZoneRecord) : Option CompressedZone :=
  let primaryKeyIndex := (∅ : OrdMap String (List ℕ)).insertList r.chains
  (visibilityWords r.mvccVersions).bind fun words =>
    (EntityDirectory.buildFromMap primaryKeyIndex).map fun directory =>
      { entityType := r.entityType
        primaryKeyIndex := primaryKeyIndex
        mvccVersions := r.mvccVersions
        columns := (∅ : OrdMap String (List MbfCellValue)).insertList r.columns
        directory := directory.toEliasFanoEntityDirectory
        activeVisibilityWords := words
        avetSecondaryIndex := r.columns.foldl postColumn ∅
        fsstTable := .internAll r.symbols
        entityDirectory := directory }

def decodeZoneBinary [WireFormats] (bytes : List Byte) :
    Except DomainError (Option CompressedZone) :=
  if bytes.length < 12 ∨ bytes.take 8 ≠ zone1Magic then
    .error (corrupt "Invalid Zone 1 PAX binary magic header")
  else (readZone (bytes.drop 8)).map fun read => read.1.toZone

end Hashed

/-! ### Each part is read back -/

theorem reads_u32 {n : ℕ} (h : n < 2 ^ 32) : Reads readU32 (writeU32 n) n := by
  rw [writeU32, Nat.mod_eq_of_lt h]
  exact reads_readLe _ (by simpa using h)

theorem reads_u64 {n : ℕ} (h : n < 2 ^ 64) : Reads readU64 (writeU64 n) n := by
  rw [writeU64, Nat.mod_eq_of_lt h]
  exact reads_readLe _ (by simpa using h)

theorem reads_signed {n : ℕ} (hn : 0 < n) (err : DomainError) (z : Signed (8 * n)) :
    Reads (readSigned n err) (writeSigned n z) z := by
  have hlt := (BitVec.ofInt (8 * n) z.val).isLt
  rw [pow_mul] at hlt
  have hread := (reads_readLe err hlt).map fun k : ℕ =>
    (⟨(BitVec.ofNat (8 * n) k).toInt, BitVec.le_toInt _, BitVec.toInt_lt⟩ : Signed (8 * n))
  have hvalue : (BitVec.ofNat (8 * n) (BitVec.ofInt (8 * n) z.val).toNat).toInt = z.val := by
    rw [BitVec.ofNat_toNat, BitVec.setWidth_eq]
    exact BitVec.toInt_ofInt_eq_self (by omega) z.property.1 z.property.2
  simp only [hvalue] at hread
  exact hread

theorem reads_version {v : MvccRowVersion} (hrow : v.rowId < 2 ^ 32)
    (hassert : v.txAssertEpoch < 2 ^ 64) (hretract : v.txRetractEpoch < 2 ^ 64) :
    Reads readVersion (writeVersion v) v := by
  refine (reads_u32 hrow).bind ?_
  refine (reads_u64 hassert).bind ?_
  exact (reads_u64 hretract).map fun retract =>
    (⟨v.rowId, v.txAssertEpoch, retract⟩ : MvccRowVersion)

section Formats
variable [WireFormats]

theorem reads_text {s : String} (h : (utf8 s).length < 2 ^ 32) :
    Reads readText (writeText s) s := by
  have hraw := (reads_takeBytes (n := (utf8 s).length)
    (corrupt "Unexpected EOF reading string in Zone 1") rfl).map WireFormats.fromUtf8Lossy
  rw [WireFormats.fromUtf8Lossy_utf8] at hraw
  exact (reads_u32 h).bind hraw

theorem reads_chain {e : String × List ℕ} (heid : (utf8 e.1).length < 2 ^ 32)
    (hlen : e.2.length < 2 ^ 32) (hrows : ∀ r ∈ e.2, r < 2 ^ 32) :
    Reads readChain (writeChain e) e := by
  refine (reads_text heid).bind ?_
  refine (reads_u32 hlen).bind ?_
  exact (reads_readMany e.2 fun r hr => reads_u32 (hrows r hr)).map fun rows => (e.1, rows)

theorem reads_binary {cell : MbfCellValue} (h : cell.Fits) :
    Reads MbfCellValue.readBinary cell.writeBinary cell := by
  cases cell with
  | null => exact fun _ => rfl
  | bool b => cases b <;> exact fun _ => rfl
  | int64 v => exact reads_tagged _ ((reads_signed (n := 8) (by norm_num) _ v).map MbfCellValue.int64)
  | float64 bits =>
    have hlt : bits.toNat < 256 ^ 8 := by simpa using bits.isLt
    have hread := (reads_readLe (corrupt "Unexpected EOF reading Float64 cell") hlt).map fun k =>
      MbfCellValue.float64 (BitVec.ofNat 64 k)
    rw [BitVec.ofNat_toNat, BitVec.setWidth_eq] at hread
    exact reads_tagged _ hread
  | decimal128 v =>
    exact reads_tagged _ ((reads_signed (n := 16) (by norm_num) _ v).map MbfCellValue.decimal128)
  | text s =>
    have hlen : (utf8 s).length < 256 ^ 4 := by simpa [MbfCellValue.Fits] using h
    apply reads_tagged
    have hraw := (reads_takeBytes (n := (utf8 s).length)
      (corrupt "Unexpected EOF reading Text payload") rfl).map fun raw =>
        MbfCellValue.text (WireFormats.fromUtf8Lossy raw)
    rw [WireFormats.fromUtf8Lossy_utf8] at hraw
    rw [writeText, writeU32, Nat.mod_eq_of_lt h]
    exact (reads_readLe _ hlen).bind hraw
  | bytes b =>
    have hlen : b.length < 256 ^ 4 := by simpa [MbfCellValue.Fits] using h
    apply reads_tagged
    rw [writeU32, Nat.mod_eq_of_lt h]
    exact (reads_readLe _ hlen).bind ((reads_takeBytes _ rfl).map MbfCellValue.bytes)

omit [WireFormats] in
/-- A cell that is written by itself does not begin with the tag of a symbol. -/
theorem writeBinary_tag (cell : MbfCellValue) :
    ∃ tag bytes, cell.writeBinary = tag :: bytes ∧ tag ≠ symbolTag := by
  cases cell <;> exact ⟨_, _, rfl, by decide⟩

theorem reads_inline (t : FsstSymbolTable) {cell : MbfCellValue} (h : cell.Fits) :
    Reads (readCell t) cell.writeBinary cell := by
  obtain ⟨tag, bytes, hbytes, htag⟩ := writeBinary_tag cell
  have hread := reads_binary h
  rw [hbytes] at hread ⊢
  intro rest
  have hcell : readCell t (tag :: bytes ++ rest) =
      (if tag = symbolTag then readSymbol t else MbfCellValue.readBinary) (tag :: bytes ++ rest) :=
    rfl
  rw [hcell, if_neg htag]
  exact hread rest

/-- Cells are read back whether or not their text has a symbol. -/
theorem reads_cell {t : FsstSymbolTable} (ht : t.Coherent) {cell : MbfCellValue} (h : cell.Fits) :
    Reads (readCell t) (writeCell t cell) cell := by
  cases cell with
  | text s =>
    rw [writeCell]
    cases hcode : t.symbolToCode.lookup s with
    | none => exact reads_inline t h
    | some symCode =>
      have hsymbol : t.decodeSymbol symCode = some s := (ht.codes s symCode).mp hcode
      intro rest
      have hread : readCell t ([symbolTag, symCode] ++ rest) =
          (match t.decodeSymbol symCode with
            | some text => (return .text text : MbfReader MbfCellValue)
            | none => throw (corrupt ("Unknown FSST symbol code " ++ toString symCode.val))) rest :=
        rfl
      rw [hread, hsymbol]
      rfl
  | null => exact reads_inline t h
  | bool b => exact reads_inline t h
  | int64 v => exact reads_inline t h
  | float64 bits => exact reads_inline t h
  | decimal128 v => exact reads_inline t h
  | bytes b => exact reads_inline t h

theorem reads_column {t : FsstSymbolTable} (ht : t.Coherent) {col : String × List MbfCellValue}
    (hname : (utf8 col.1).length < 2 ^ 32) (hlen : col.2.length < 2 ^ 32)
    (hcells : ∀ cell ∈ col.2, cell.Fits) : Reads (readColumn t) (writeColumn t col) col := by
  refine (reads_text hname).bind ?_
  refine (reads_u32 hlen).bind ?_
  exact (reads_readMany col.2 fun cell hcell => reads_cell ht (hcells cell hcell)).map
    fun cells => (col.1, cells)

end Formats

end MetriEngine.Storage.PaxMvcc
