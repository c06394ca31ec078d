import MetriEngine.Foundation.Checked
import MetriEngine.Storage.Backup

/-!
# The envelope of a file, byte by byte

A header of 64 bytes, the seal, the payload up to a multiple of 64, the directory and a footer
of 64 bytes. The footer holds where the directory stands, a checksum of the header and one of
the directory, and the front of the seal's tag.
-/
namespace MetriEngine.Storage.Envelope
open Foundation

/-- `crc32fast::hash` and `xxh64`. -/
class FileDigests where
  crc32 : List Byte → Fin (2 ^ 32)
  xxh64 : List Byte → ℕ → Fin (2 ^ 64)

/-- The number in `n` bytes from `start`, least significant first. -/
def leAt (bytes : List Byte) (start n : ℕ) : ℕ := ofBeBytes ((bytes.drop start).take n).reverse

theorem leAt_skip {p q : List Byte} {n start : ℕ} (h : p.length ≤ start) :
    leAt (p ++ q) start n = leAt q (start - p.length) n := by
  unfold leAt
  rw [List.drop_append, List.drop_eq_nil_of_le h, List.nil_append]

theorem leAt_here {n x : ℕ} (q : List Byte) (h : x < 256 ^ n) : leAt (leBytes n x ++ q) 0 n = x := by
  unfold leAt
  rw [List.drop_zero, List.take_left' (leBytes_length n x), leBytes, List.reverse_reverse,
    ofBeBytes_beBytes h]

theorem leAt_after {p : List Byte} {n x start : ℕ} (q : List Byte) (hp : p.length = start)
    (hx : x < 256 ^ n) : leAt (p ++ (leBytes n x ++ q)) start n = x := by
  rw [leAt_skip hp.le, hp, Nat.sub_self, leAt_here q hx]

theorem length_flatMap_words (words : List (BitVec 64)) :
    (words.flatMap fun w => leBytes 8 w.toNat).length = 8 * words.length := by
  simp [List.length_flatMap, mul_comm]

/-- A word of a run of words. -/
theorem leAt_word {words : List (BitVec 64)} {p : List Byte} {start : ℕ} (q : List Byte)
    (hp : p.length = start) {k : ℕ} {w : BitVec 64} (hw : words[k]? = some w) :
    leAt (p ++ ((words.flatMap fun w => leBytes 8 w.toNat) ++ q)) (start + 8 * k) 8 = w.toNat := by
  obtain ⟨hk, rfl⟩ := List.getElem?_eq_some_iff.mp hw
  have hsplit : words = words.take k ++ words[k] :: words.drop (k + 1) := by
    rw [← List.drop_eq_getElem_cons hk, List.take_append_drop]
  have hskip : (p ++ (words.take k).flatMap fun w => leBytes 8 w.toNat).length = start + 8 * k := by
    rw [List.length_append, hp, length_flatMap_words, List.length_take, min_eq_left hk.le]
  have hword : words[k].toNat < 256 ^ 8 := by simpa using words[k].isLt
  have hbytes : p ++ ((words.flatMap fun w => leBytes 8 w.toNat) ++ q) =
      (p ++ (words.take k).flatMap fun w => leBytes 8 w.toNat) ++
        (leBytes 8 words[k].toNat ++ (((words.drop (k + 1)).flatMap fun w => leBytes 8 w.toNat) ++ q)) := by
    conv_lhs => rw [hsplit]
    simp only [List.flatMap_append, List.flatMap_cons, List.append_assoc]
  rw [hbytes]
  exact leAt_after _ hskip hword

def i64At (bytes : List Byte) (start : ℕ) : ℤ := wrapI64 (leAt bytes start 8)

/-- An inner error under what was being read. -/
def within {α : Type} (context : String) (r : Checked DomainError α) : Checked DomainError α :=
  match r with
  | .error (.err e) => .error (.err (corrupt (context ++ ": MbfCorrupt001: " ++ e.detail)))
  | r => r

def fail {α : Type} (detail : String) : Checked DomainError α := .error (.err (corrupt detail))

/-- The early return of an error. -/
def failIf (c : Prop) [Decidable c] (detail : String) : Checked DomainError Unit :=
  if c then fail detail else .ok ()

theorem failIf_bind {α : Type} (c : Prop) [Decidable c] (detail : String)
    (k : Unit → Checked DomainError α) :
    (failIf c detail >>= k) = if c then fail detail else k () := by
  unfold failIf
  split_ifs <;> rfl

/-! ### Header -/

def mbfMagic : List Byte := utf8 "METRIBIN"
def mbfIdxMagic : List Byte := utf8 "MBFINDEX"
def mbfFooterMagic : List Byte := utf8 "MBFFOOTR"

structure MbfHeader where
  magic : List Byte
  version : ℕ
  flags : ℕ
  rowCount : ℕ
  tenantHash : List Byte
  minTxId : ℕ
  maxTxId : ℕ
  minTimestampMs : ℤ
  maxTimestampMs : ℤ
deriving DecidableEq

namespace MbfHeader

def new (cellId rowCount epochId schemaFingerprint : ℕ) (fiscalLockEpochMs createdAtMs : ℤ) :
    MbfHeader where
  magic := mbfMagic
  version := 1
  flags := 0x1FC + (cellId % 64) * 2 ^ 10
  rowCount := min rowCount (2 ^ 32 - 1)
  tenantHash := leBytes 8 schemaFingerprint ++ leBytes 8 (fiscalLockEpochMs % 2 ^ 64).toNat
  minTxId := if 0 < epochId then 1 else 0
  maxTxId := epochId
  minTimestampMs := fiscalLockEpochMs
  maxTimestampMs := createdAtMs

/-- Other flags below the six bits of the cell. -/
def withFlags (h : MbfHeader) (extraFlags : ℕ) : MbfHeader :=
  { h with flags := h.flags / 2 ^ 10 * 2 ^ 10 + extraFlags }

def toBytes (h : MbfHeader) : List Byte :=
  h.magic ++ (leBytes 2 h.version ++ (leBytes 2 h.flags ++ (leBytes 4 h.rowCount ++
    (h.tenantHash ++ (leBytes 8 h.minTxId ++ (leBytes 8 h.maxTxId ++
      (writeI64 h.minTimestampMs ++ writeI64 h.maxTimestampMs)))))))

/-- `pod_read_unaligned` -/
def read (bytes : List Byte) : MbfHeader where
  magic := bytes.take 8
  version := leAt bytes 8 2
  flags := leAt bytes 10 2
  rowCount := leAt bytes 12 4
  tenantHash := (bytes.drop 16).take 16
  minTxId := leAt bytes 32 8
  maxTxId := leAt bytes 40 8
  minTimestampMs := i64At bytes 48
  maxTimestampMs := i64At bytes 56

def validate (h : MbfHeader) : Checked DomainError Unit :=
  if h.magic ≠ mbfMagic ∧ h.magic ≠ mbfIdxMagic then
    fail "Invalid MBF magic bytes in header (expected METRIBIN or MBFINDEX)"
  else if h.version ≠ 1 then fail ("Unsupported MBF version: " ++ toString h.version)
  else .ok ()

def fromBytes (bytes : List Byte) : Checked DomainError MbfHeader := do
  failIf (bytes.length < 64)
    ("Buffer too small for MbfHeader: " ++ toString bytes.length ++ " bytes")
  let raw ← slice bytes 0 64
  validate (read raw)
  return read raw

/-- The file carries a seal. -/
def cryptoSealed (h : MbfHeader) : Bool := h.flags.testBit 1

end MbfHeader

/-! ### Seal -/

def sealToBytes (s : MbfTenantCryptoSeal) : List Byte :=
  s.tenantContextHash ++ (s.nonce ++ (leBytes 4 s.cryptoFlags ++ s.keyedMac))

def sealRead (bytes : List Byte) : MbfTenantCryptoSeal where
  tenantContextHash := bytes.take 16
  nonce := (bytes.drop 16).take 12
  cryptoFlags := leAt bytes 28 4
  keyedMac := (bytes.drop 32).take 32

def sealFromBytes (bytes : List Byte) : Checked DomainError MbfTenantCryptoSeal := do
  failIf (bytes.length < 64) "Buffer too small for MbfTenantCryptoSeal"
  let raw ← slice bytes 0 64
  return sealRead raw

/-! ### Footer -/

structure MbfFooterTrailer where
  directoryOffset : ℕ
  directoryLen : ℕ
  headerCrc32c : ℕ
  directoryCrc32c : ℕ
  schemaFingerprintHi : ℕ
  fiscalLockEpochMs : ℤ
  hmacTagTruncated : List Byte
  footerMagic : List Byte
deriving DecidableEq

namespace MbfFooterTrailer

def toBytes (f : MbfFooterTrailer) : List Byte :=
  leBytes 8 f.directoryOffset ++ (leBytes 4 f.directoryLen ++ (leBytes 4 f.headerCrc32c ++
    (leBytes 4 f.directoryCrc32c ++ (leBytes 4 f.schemaFingerprintHi ++
      (writeI64 f.fiscalLockEpochMs ++ (f.hmacTagTruncated ++ f.footerMagic))))))

def read (bytes : List Byte) : MbfFooterTrailer where
  directoryOffset := leAt bytes 0 8
  directoryLen := leAt bytes 8 4
  headerCrc32c := leAt bytes 12 4
  directoryCrc32c := leAt bytes 16 4
  schemaFingerprintHi := leAt bytes 20 4
  fiscalLockEpochMs := i64At bytes 24
  hmacTagTruncated := (bytes.drop 32).take 24
  footerMagic := (bytes.drop 56).take 8

def fromBytes (bytes : List Byte) : Checked DomainError MbfFooterTrailer := do
  failIf (bytes.length < 64) "Buffer too small for MbfFooterTrailer"
  let raw ← slice bytes 0 64
  failIf ((read raw).footerMagic ≠ mbfFooterMagic)
    "Invalid MbfFooterTrailer magic bytes (expected MBFFOOTR)"
  return read raw

end MbfFooterTrailer

def verifyFooterTag (s : MbfTenantCryptoSeal) (footer : MbfFooterTrailer) :
    Checked DomainError Unit :=
  if s.keyedMac.take 24 ≠ footer.hmacTagTruncated then
    fail "Footer truncated HMAC-192 tag does not match MbfTenantCryptoSeal"
  else .ok ()

/-! ### Directory -/

structure ColumnChunkDescriptor where
  attrId : ℕ
  zoneId : ℕ
  valueTag : ℕ
  rowCount : ℕ
  byteOffset : ℕ
  byteLen : ℕ
  synopsisOffset : ℕ
deriving DecidableEq

namespace ColumnChunkDescriptor

def toBytes (c : ColumnChunkDescriptor) : List Byte :=
  leBytes 2 c.attrId ++ (leBytes 1 c.zoneId ++ (leBytes 1 c.valueTag ++ (leBytes 4 c.rowCount ++
    (leBytes 8 c.byteOffset ++ (leBytes 8 c.byteLen ++ leBytes 8 c.synopsisOffset)))))

def read (bytes : List Byte) : ColumnChunkDescriptor where
  attrId := leAt bytes 0 2
  zoneId := leAt bytes 2 1
  valueTag := leAt bytes 3 1
  rowCount := leAt bytes 4 4
  byteOffset := leAt bytes 8 8
  byteLen := leAt bytes 16 8
  synopsisOffset := leAt bytes 24 8

end ColumnChunkDescriptor

/-- The offset and the length of each zone in turn, and the columns. -/
structure MbfDirectoryIndex where
  zones : List ℕ
  columns : List ColumnChunkDescriptor
deriving DecidableEq

namespace MbfDirectoryIndex

def toBytes (d : MbfDirectoryIndex) : List Byte :=
  MbfPartitionWireSnapshot.padTo64 (d.zones.flatMap (leBytes 8) ++
    (leBytes 4 d.columns.length ++ (leBytes 4 0 ++
      d.columns.flatMap ColumnChunkDescriptor.toBytes)))

/-- The descriptors from number `i` on. -/
def readColumns (bytes : List Byte) : ℕ → ℕ → Checked DomainError (List ColumnChunkDescriptor)
  | 0, _ => .ok []
  | count + 1, i => do
    let start ← usizeAdd 136 (i * 32)
    let raw ← slice bytes start (← usizeAdd start 32)
    let columns ← readColumns bytes count (i + 1)
    return ColumnChunkDescriptor.read raw :: columns

def columnCount (bytes : List Byte) : ℕ := leAt bytes 128 4

def fromBytes (bytes : List Byte) : Checked DomainError MbfDirectoryIndex := do
  failIf (bytes.length < 136)
    ("DirectoryIndex buffer too small: " ++ toString bytes.length ++ " bytes")
  let zones ← slice bytes 0 128
  let colCount ← (fun le => ofBeBytes le.reverse) <$> slice bytes 128 132
  failIf (bytes.length < min (136 + min (colCount * 32) (2 ^ 64 - 1)) (2 ^ 64 - 1))
    "DirectoryIndex truncated column descriptors"
  let columns ← readColumns bytes colCount 0
  return ⟨(List.range 16).map fun i => leAt zones (8 * i) 8, columns⟩

end MbfDirectoryIndex

/-! ### Files -/

section Files
variable [FileDigests]

/-- The seal's tag, in a file that carries a seal. -/
def verifySeal (file : List Byte) (header : MbfHeader) (footer : MbfFooterTrailer) :
    Checked DomainError Unit :=
  if header.cryptoSealed then do
    let sealBytes ← slice file 64 128
    let cryptoSeal ← sealFromBytes sealBytes
    verifyFooterTag cryptoSeal footer
  else .ok ()

/-- What the decoder of an envelope has checked before it cuts the payload out: the header,
where the directory starts, and the directory. -/
def openMbfEnvelope (file : List Byte) :
    Checked DomainError (MbfHeader × ℕ × MbfDirectoryIndex) := do
  failIf (file.length < 256 ∨ file.length % 64 ≠ 0)
    ("MBF file size invalid or not 64B-aligned: " ++ toString file.length ++ " bytes")
  let headerBytes ← slice file 0 64
  let header ← within "Header parse error" (MbfHeader.fromBytes headerBytes)
  let footerBytes ← slice file (file.length - 64) file.length
  let footer ← within "Footer parse error" (MbfFooterTrailer.fromBytes footerBytes)
  failIf (footer.headerCrc32c ≠ (FileDigests.crc32 headerBytes).val)
    "Header CRC32C mismatch in MBF footer"
  verifySeal file header footer
  let dirEnd := min (footer.directoryOffset + footer.directoryLen) (2 ^ 64 - 1)
  failIf (footer.directoryOffset < 128 ∨ file.length - 64 < dirEnd)
    "Invalid directory offset/len in MBF footer"
  let dirSlice ← slice file footer.directoryOffset dirEnd
  failIf ((FileDigests.crc32 dirSlice).val ≠ footer.directoryCrc32c)
    "Directory CRC32C mismatch in MBF footer"
  let directory ← within "Directory index error" (MbfDirectoryIndex.fromBytes dirSlice)
  return (header, footer.directoryOffset, directory)

def payloadLen (dirStart : ℕ) (directory : MbfDirectoryIndex) : ℕ :=
  match directory.columns.head? with
  | none => dirStart - 128
  | some c => c.byteLen

def decodeMbfEnvelope (file : List Byte) : Checked DomainError (MbfHeader × List Byte) := do
  let (header, dirStart, directory) ← openMbfEnvelope file
  let payloadEnd := min (← usizeAdd 128 (payloadLen dirStart directory)) dirStart
  let payload ← slice file 128 payloadEnd
  return (header, payload)

/-! ### What is checked -/

def headerOf (file : List Byte) : MbfHeader := MbfHeader.read (file.take 64)
def sealOf (file : List Byte) : MbfTenantCryptoSeal := sealRead ((file.drop 64).take 64)
def footerOf (file : List Byte) : MbfFooterTrailer :=
  MbfFooterTrailer.read (file.drop (file.length - 64))

/-- The bytes that the footer names as the directory. -/
def directoryBytes (file : List Byte) : List Byte :=
  (file.drop (footerOf file).directoryOffset).take (footerOf file).directoryLen

/-- The checks on a file: none of them reads what stands between the seal and the directory. -/
structure Passes (file : List Byte) : Prop where
  size : 256 ≤ file.length ∧ file.length % 64 = 0
  header : ((headerOf file).magic = mbfMagic ∨ (headerOf file).magic = mbfIdxMagic) ∧
    (headerOf file).version = 1
  footerMagic : (footerOf file).footerMagic = mbfFooterMagic
  headerCrc : (footerOf file).headerCrc32c = (FileDigests.crc32 (file.take 64)).val
  tag : (headerOf file).cryptoSealed = true →
    (sealOf file).keyedMac.take 24 = (footerOf file).hmacTagTruncated
  bounds : 128 ≤ (footerOf file).directoryOffset ∧
    (footerOf file).directoryOffset + (footerOf file).directoryLen ≤ file.length - 64
  directoryCrc : (FileDigests.crc32 (directoryBytes file)).val = (footerOf file).directoryCrc32c
  columns : 136 ≤ (footerOf file).directoryLen ∧
    136 + MbfDirectoryIndex.columnCount (directoryBytes file) * 32 ≤ (footerOf file).directoryLen

variable [SealDigests]

/-- What is written around a payload. -/
structure EnvelopeCall where
  cellId : ℕ
  rowCount : ℕ
  epochId : Fin (2 ^ 64)
  tenantId : String
  entityType : String
  nowMs : ℤ

namespace EnvelopeCall
variable (cfg : EngineConfig) (call : EnvelopeCall) (payload : List Byte)

def schemaFpLo : ℕ := (FileDigests.xxh64 (utf8 call.entityType) 1).val
def schemaFpHi : ℕ := (FileDigests.xxh64 (utf8 call.entityType) 2).val

def header : MbfHeader :=
  (MbfHeader.new call.cellId call.rowCount call.epochId
    (FileDigests.xxh64 (utf8 call.tenantId) 0x4D45545249323032).val
    (wrapI64 call.schemaFpLo) call.nowMs).withFlags (4 + 2)

def cryptoSeal : MbfTenantCryptoSeal :=
  .sealActive cfg call.tenantId call.entityType call.epochId payload

def directory : MbfDirectoryIndex where
  zones := [128, (MbfPartitionWireSnapshot.padTo64 payload).length] ++ List.replicate 14 0
  columns :=
    [{ attrId := call.schemaFpLo % 2 ^ 16
       zoneId := 1
       valueTag := 2
       rowCount := min call.rowCount (2 ^ 32 - 1)
       byteOffset := 128
       byteLen := payload.length
       synopsisOffset := 0 }]

def footer : MbfFooterTrailer where
  directoryOffset := 128 + (MbfPartitionWireSnapshot.padTo64 payload).length
  directoryLen := (call.directory payload).toBytes.length
  headerCrc32c := (FileDigests.crc32 call.header.toBytes).val
  directoryCrc32c := (FileDigests.crc32 (call.directory payload).toBytes).val
  schemaFingerprintHi := call.schemaFpHi % 2 ^ 32
  fiscalLockEpochMs := 0
  hmacTagTruncated := (call.cryptoSeal cfg payload).keyedMac.take 24
  footerMagic := mbfFooterMagic

/-- A file with the parts written for a payload around some bytes in its place. -/
def fileAround (region : List Byte) : List Byte :=
  call.header.toBytes ++ (sealToBytes (call.cryptoSeal cfg payload) ++ (region ++
    ((call.directory payload).toBytes ++ (call.footer cfg payload).toBytes)))

def encodeMbfEnvelope : List Byte :=
  call.fileAround cfg payload (MbfPartitionWireSnapshot.padTo64 payload)

end EnvelopeCall
end Files
end MetriEngine.Storage.Envelope
