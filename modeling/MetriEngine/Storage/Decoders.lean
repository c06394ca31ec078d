import MetriEngine.Storage.Wire
import MetriEngine.Storage.EnvelopeIntegrity
import MetriEngine.Tx.HotHead

/-!
# The decoders as the machine runs them

Each reader of a payload again, now with its offset, its own bounds checks, its unchecked
slices and its sums of machine words. It does what the reader over byte strings does, and so
it never stops the machine, whatever the bytes are.
-/
namespace MetriEngine.Storage.Decoders
open Foundation Envelope

/-! ### Payloads -/

section Cursors
variable [WireFormats] (bytes : List Byte)

omit [WireFormats] in
def readBytesSlice : Cursor DomainError (List Byte) := do
  let len ← cursorLe bytes 4 (corrupt "Truncated byte slice length in MBF binary payload")
  cursorTake bytes len (corrupt "Truncated byte slice body in MBF binary payload")

def readStrBinary : Cursor DomainError String := do
  let raw ← readBytesSlice bytes
  match fromUtf8 raw with
  | some s => return s
  | none =>
    throw (.err (corrupt ("Invalid UTF-8 in MBF binary string: " ++ WireFormats.utf8Error raw)))

def readAttributeValueCompact (tenantPrefix : Option String) : Cursor DomainError AttributeValue := do
  let tag ← cursorByte bytes (corrupt "Unexpected EOF reading binary AttributeValue tag")
  match tag.val with
  | 0x01 => return .s (← readStrBinary bytes)
  | 0x02 => return .n (← readStrBinary bytes)
  | 0x03 => return .b (← readBytesSlice bytes)
  | 0x04 => return .bool ((← cursorByte bytes (corrupt "Truncated Bool AttributeValue")) != 0)
  | 0x05 => return .null ((← cursorByte bytes (corrupt "Truncated Null AttributeValue")) != 0)
  | 0x11 => return .s (tenantPrefix.getD "T#system#" ++ "A#" ++ (← readStrBinary bytes))
  | 0x12 => return .s (tenantPrefix.getD "T#system#" ++ "V#" ++ (← readStrBinary bytes))
  | 0x13 => return .s (tenantPrefix.getD "T#system#" ++ "R#" ++ (← readStrBinary bytes))
  | _ => throw (.err (corrupt ("Unknown binary AttributeValue tag: 0x" ++ hexByte tag)))

def readItemMapBinary : Cursor DomainError Item := do
  let count ← cursorLe bytes 4 (corrupt "Truncated binary item map length")
  let entries ← cursorMany
    (do return (← readStrBinary bytes, ← readAttributeValueCompact bytes none)) count
  return (∅ : Item).insertList entries

def readKey : Cursor DomainError String := do
  let keyCode ← cursorByte bytes (corrupt "Unexpected EOF reading compact item key code")
  match keyCodes.find? fun e => e.2 = keyCode with
  | some e => return e.1
  | none =>
    if keyCode = 0xFF then readStrBinary bytes
    else throw (.err (corrupt ("Unknown compact item key code: 0x" ++ hexByte keyCode)))

def readEntryCompact (pk : String) : Cursor DomainError (String × AttributeValue) := do
  return (← readKey bytes, ← readAttributeValueCompact bytes (extractTenantPrefix pk))

def readItemMapCompact (key : PrimaryKey) : Cursor DomainError Item := do
  cursorGuard bytes 3 (corrupt "Truncated compact item map header")
  let flags ← cursorIndex bytes
  let low ← cursorIndex bytes
  let high ← cursorIndex bytes
  let entries ← cursorMany (readEntryCompact bytes key.pk) (ofBeBytes [high, low])
  return (elided key flags).insertList entries

def readRows : ℕ → String → Cursor DomainError (List (PrimaryKey × Item))
  | 0, _ => return []
  | count + 1, prevPk => do
    let samePk ← cursorByte bytes (corrupt "Truncated PK delta flag in MBFPART2")
    let pk ← if samePk ≠ 0 then pure prevPk else readStrBinary bytes
    let sk ← readBytesSlice bytes
    let item ← readItemMapCompact bytes ⟨pk, sk⟩
    let rows ← readRows count pk
    return (⟨pk, sk⟩, item) :: rows

def readRowV1 : Cursor DomainError (PrimaryKey × Item) := do
  let pk ← readStrBinary bytes
  let sk ← readBytesSlice bytes
  return (⟨pk, sk⟩, ← readItemMapBinary bytes)

omit [WireFormats] in
def readI64 (err : DomainError) : Cursor DomainError ℤ :=
  (fun n : ℕ => wrapI64 n) <$> cursorLe bytes 8 err

def readCounter : Cursor DomainError (QuotaKey × ℤ) := do
  let t ← readStrBinary bytes
  let q ← readStrBinary bytes
  return (toLex (t, q), ← readI64 bytes (corrupt "Truncated quota counter value"))

def readIdem : Cursor DomainError (QuotaKey × (String × ℤ)) := do
  let t ← readStrBinary bytes
  let ik ← readStrBinary bytes
  let qid ← readStrBinary bytes
  return (toLex (t, ik), (qid, ← readI64 bytes (corrupt "Truncated quota idem delta")))

/-- Two numbers of 8 and of 4 bytes behind one check for both. -/
def readEpochAndCount {α : Type} (err : DomainError) (next : ℕ → ℕ → Cursor DomainError α) :
    Cursor DomainError α := do
  cursorGuard bytes (8 + 4) err
  let epochId ← cursorSlice bytes 8
  let count ← cursorSlice bytes 4
  next (ofBeBytes epochId.reverse) (ofBeBytes count.reverse)

def readPartition (isV2 : Bool) : Cursor DomainError MbfPartitionWireSnapshot :=
  readEpochAndCount bytes (corrupt "Truncated MBFPartitionWireSnapshot header")
    fun epochId itemCount => do
      let items ← if isV2 then readRows bytes itemCount "" else cursorMany (readRowV1 bytes) itemCount
      let qcCount ← cursorLe bytes 4 (corrupt "Truncated quota_counters count")
      let quotaCounters ← cursorMany (readCounter bytes) qcCount
      let qiCount ← cursorLe bytes 4 (corrupt "Truncated quota_idem count")
      let quotaIdem ← cursorMany (readIdem bytes) qiCount
      return ⟨epochId, items, quotaCounters, quotaIdem⟩

def readDatom (isV2 : Bool) (pk : String) : Cursor DomainError (List Byte × Item) := do
  let sk ← readBytesSlice bytes
  let item ← if isV2 then readItemMapCompact bytes ⟨pk, sk⟩ else readItemMapBinary bytes
  return (sk, item)

def readEntity (isV2 : Bool) : Cursor DomainError MbfEntityWireSnapshot := do
  let tenantId ← readStrBinary bytes
  let entityType ← readStrBinary bytes
  let entityId ← readStrBinary bytes
  readEpochAndCount bytes (corrupt "Truncated MbfEntityWireSnapshot counts") fun epochId count => do
    let datoms ← cursorMany
      (readDatom bytes isV2 (MbfEntityWireSnapshot.entityPk tenantId entityId)) count
    return ⟨tenantId, entityType, entityId, epochId, datoms⟩

end Cursors

/-! ### Each does what its reader does -/

section Rules
variable [WireFormats] {bytes : List Byte} (hbytes : bytes.length < 2 ^ 63)
include hbytes

omit [WireFormats] in
theorem implements_bytesSlice :
    Implements bytes (readBytesSlice bytes) Storage.readBytesSlice := by
  apply (implements_le hbytes (by norm_num) _).bind_of (P := fun len => len < 256 ^ 4)
  · intro text len rest h
    exact readLe_lt h
  · intro len hlen
    exact implements_take hbytes (by omega) _

theorem implements_strBinary : Implements bytes (readStrBinary bytes) Storage.readStrBinary := by
  apply (implements_bytesSlice hbytes).bind
  intro raw
  cases fromUtf8 raw with
  | none => exact Implements.fail _
  | some s => exact Implements.pure s

theorem implements_attributeValueCompact (tenantPrefix : Option String) :
    Implements bytes (readAttributeValueCompact bytes tenantPrefix)
      (Storage.readAttributeValueCompact tenantPrefix) := by
  apply (implements_byte hbytes _).bind
  intro tag
  have hstr := implements_strBinary hbytes
  have hblob := implements_bytesSlice hbytes
  generalize tag.val = code
  split
  · exact hstr.bind fun s => Implements.pure _
  · exact hstr.bind fun s => Implements.pure _
  · exact hblob.bind fun s => Implements.pure _
  · exact (implements_byte hbytes _).bind fun b => Implements.pure _
  · exact (implements_byte hbytes _).bind fun b => Implements.pure _
  · exact hstr.bind fun s => Implements.pure _
  · exact hstr.bind fun s => Implements.pure _
  · exact hstr.bind fun s => Implements.pure _
  · first
    | exact Implements.fail _
    | split <;> first
      | contradiction
      | exact Implements.fail _

theorem implements_itemMapBinary :
    Implements bytes (readItemMapBinary bytes) Storage.readItemMapBinary := by
  apply (implements_le hbytes (by norm_num) _).bind
  intro count
  apply (implements_many _ count).bind
  · intro entries
    exact Implements.pure _
  · apply (implements_strBinary hbytes).bind
    intro name
    exact (implements_attributeValueCompact hbytes _).bind fun v => Implements.pure (name, v)

theorem implements_key : Implements bytes (readKey bytes) Storage.readKey := by
  apply (implements_byte hbytes _).bind
  intro keyCode
  cases keyCodes.find? fun e => e.2 = keyCode with
  | some e => exact Implements.pure _
  | none =>
    dsimp only
    split_ifs
    · exact implements_strBinary hbytes
    · exact Implements.fail _

theorem implements_itemMapCompact (key : PrimaryKey) :
    Implements bytes (readItemMapCompact bytes key) (Storage.readItemMapCompact key) := by
  apply implements_three hbytes
  intro flags low high
  have hentry : Implements bytes (readEntryCompact bytes key.pk)
      (Storage.readEntryCompact key.pk) := by
    apply (implements_key hbytes).bind
    intro name
    exact (implements_attributeValueCompact hbytes _).bind fun v => Implements.pure (name, v)
  exact (implements_many hentry _).bind fun entries => Implements.pure _

theorem implements_rows (count : ℕ) (prevPk : String) :
    Implements bytes (readRows bytes count prevPk) (Storage.readRows count prevPk) := by
  induction count generalizing prevPk with
  | zero => exact Implements.pure _
  | succ count ih =>
    apply (implements_byte hbytes _).bind
    intro samePk
    have hrest : ∀ pk, Implements bytes
        (do
          let sk ← readBytesSlice bytes
          let item ← readItemMapCompact bytes ⟨pk, sk⟩
          let rows ← readRows bytes count pk
          return ((⟨pk, sk⟩, item) :: rows : List (PrimaryKey × Item)))
        (do
          let sk ← Storage.readBytesSlice
          let item ← Storage.readItemMapCompact ⟨pk, sk⟩
          let rows ← Storage.readRows count pk
          return (⟨pk, sk⟩, item) :: rows) := by
      intro pk
      apply (implements_bytesSlice hbytes).bind
      intro sk
      apply (implements_itemMapCompact hbytes _).bind
      intro item
      exact (ih pk).bind fun rows => Implements.pure _
    by_cases hsame : samePk ≠ 0
    · rw [if_pos hsame, if_pos hsame]
      exact hrest prevPk
    · rw [if_neg hsame, if_neg hsame]
      exact (implements_strBinary hbytes).bind hrest

theorem implements_rowV1 : Implements bytes (readRowV1 bytes) Storage.readRowV1 := by
  apply (implements_strBinary hbytes).bind
  intro pk
  apply (implements_bytesSlice hbytes).bind
  intro sk
  exact (implements_itemMapBinary hbytes).bind fun item => Implements.pure _

omit [WireFormats] in
theorem implements_i64 (err : DomainError) :
    Implements bytes (readI64 bytes err) (Storage.readI64 err) :=
  (implements_le hbytes (by norm_num) err).map _

theorem implements_counter : Implements bytes (readCounter bytes) Storage.readCounter := by
  apply (implements_strBinary hbytes).bind
  intro t
  apply (implements_strBinary hbytes).bind
  intro q
  exact (implements_i64 hbytes _).bind fun z => Implements.pure _

theorem implements_idem : Implements bytes (readIdem bytes) Storage.readIdem := by
  apply (implements_strBinary hbytes).bind
  intro t
  apply (implements_strBinary hbytes).bind
  intro ik
  apply (implements_strBinary hbytes).bind
  intro qid
  exact (implements_i64 hbytes _).bind fun z => Implements.pure _

omit [WireFormats] in
theorem implements_epochAndCount {α : Type} (err : DomainError)
    {next : ℕ → ℕ → Cursor DomainError α} {next' : ℕ → ℕ → MbfReader α}
    (h : ∀ epochId count, Implements bytes (next epochId count) (next' epochId count)) :
    Implements bytes (readEpochAndCount bytes err next) (do
      let epochId ← readLe 8 err
      let count ← readLe 4 err
      next' epochId count) := by
  have hread : (do
      let epochId ← readLe 8 err
      let count ← readLe 4 err
      next' epochId count) = (do
      let a ← takeBytes 8 err
      let b ← takeBytes 4 err
      next' (ofBeBytes a.reverse) (ofBeBytes b.reverse)) := by
    simp only [readLe, map_eq_pure_bind, bind_assoc, pure_bind]
  rw [hread]
  exact implements_guarded hbytes (by norm_num) err fun a b => h _ _

theorem implements_partition (isV2 : Bool) :
    Implements bytes (readPartition bytes isV2) (MbfPartitionWireSnapshot.readRaw isV2) := by
  apply implements_epochAndCount hbytes
  intro epochId itemCount
  have hrest : ∀ items, Implements bytes
      (do
        let qcCount ← cursorLe bytes 4 (corrupt "Truncated quota_counters count")
        let quotaCounters ← cursorMany (readCounter bytes) qcCount
        let qiCount ← cursorLe bytes 4 (corrupt "Truncated quota_idem count")
        let quotaIdem ← cursorMany (readIdem bytes) qiCount
        return (⟨epochId, items, quotaCounters, quotaIdem⟩ : MbfPartitionWireSnapshot))
      (do
        let qcCount ← readLe 4 (corrupt "Truncated quota_counters count")
        let quotaCounters ← readMany Storage.readCounter qcCount
        let qiCount ← readLe 4 (corrupt "Truncated quota_idem count")
        let quotaIdem ← readMany Storage.readIdem qiCount
        return ⟨epochId, items, quotaCounters, quotaIdem⟩) := by
    intro items
    apply (implements_le hbytes (by norm_num) _).bind
    intro qcCount
    apply (implements_many (implements_counter hbytes) qcCount).bind
    intro quotaCounters
    apply (implements_le hbytes (by norm_num) _).bind
    intro qiCount
    exact (implements_many (implements_idem hbytes) qiCount).bind fun quotaIdem => Implements.pure _
  cases isV2
  · exact (implements_many (implements_rowV1 hbytes) _).bind hrest
  · exact (implements_rows hbytes _ _).bind hrest

theorem implements_datom (isV2 : Bool) (pk : String) :
    Implements bytes (readDatom bytes isV2 pk) (MbfEntityWireSnapshot.readDatom isV2 pk) := by
  apply (implements_bytesSlice hbytes).bind
  intro sk
  cases isV2
  · exact (implements_itemMapBinary hbytes).bind fun item => Implements.pure _
  · exact (implements_itemMapCompact hbytes _).bind fun item => Implements.pure _

theorem implements_entity (isV2 : Bool) :
    Implements bytes (readEntity bytes isV2) (MbfEntityWireSnapshot.readRaw isV2) := by
  apply (implements_strBinary hbytes).bind
  intro tenantId
  apply (implements_strBinary hbytes).bind
  intro entityType
  apply (implements_strBinary hbytes).bind
  intro entityId
  apply implements_epochAndCount hbytes
  intro epochId count
  exact (implements_many (implements_datom hbytes isV2 _) count).bind fun datoms => Implements.pure _

end Rules

/-! ### Frames -/

/-- The two magics of a payload, the newer first, and the texts of its errors. -/
structure FrameNames where
  magic : List Byte
  magicV1 : List Byte
  header : String
  unknown : String
  stream : String
  lz4 : String

def partitionNames : FrameNames where
  magic := MbfPartitionWireSnapshot.magic
  magicV1 := MbfPartitionWireSnapshot.magicV1
  header := "Truncated MBFPartitionWireSnapshot header"
  unknown := "Invalid MBFPartitionWireSnapshot magic (expected MBFPART1 or MBFPART2)"
  stream := "Truncated MBFPartitionWireSnapshot LZ4 stream"
  lz4 := "MBFPartitionWireSnapshot LZ4 error: "

def entityNames : FrameNames where
  magic := MbfEntityWireSnapshot.magic
  magicV1 := MbfEntityWireSnapshot.magicV1
  header := "Truncated MbfEntityWireSnapshot header"
  unknown := "Invalid MbfEntityWireSnapshot magic (expected MBFENTZ1 or MBFENTZ2)"
  stream := "Truncated MbfEntityWireSnapshot LZ4 stream"
  lz4 := "MbfEntityWireSnapshot LZ4 error: "

section Frames
variable [WireFormats] {α : Type}

/-- Both payloads are framed alike. The sum of 16 and the length in the file is unchecked. -/
def decodeFramed (names : FrameNames) (read : Bool → List Byte → Cursor DomainError α)
    (bytes : List Byte) : Checked DomainError α := do
  failIf (bytes.length < 16) names.header
  let front ← slice bytes 0 8
  failIf (front ≠ names.magic ∧ front ≠ names.magicV1) names.unknown
  let len ← slice bytes 8 16
  let stop ← usizeAdd 16 (ofBeBytes len.reverse)
  failIf (bytes.length < stop) names.stream
  let stream ← slice bytes 16 stop
  match WireFormats.decompress stream with
  | .error e => fail (names.lz4 ++ e)
  | .ok raw => Prod.fst <$> read (front = names.magic) raw 0

/-- `MbfPartitionWireSnapshot::decode_binary` -/
def decodePartition : List Byte → Checked DomainError MbfPartitionWireSnapshot :=
  decodeFramed partitionNames fun isV2 raw => readPartition raw isV2

/-- `MbfEntityWireSnapshot::decode_binary` -/
def decodeEntity : List Byte → Checked DomainError MbfEntityWireSnapshot :=
  decodeFramed entityNames fun isV2 raw => readEntity raw isV2

/-- What LZ4 gives is a vector. -/
def Bounded : Prop :=
  ∀ stream raw, WireFormats.decompress stream = .ok raw → raw.length < 2 ^ 63

/-- The same frame over byte strings. -/
def framed (names : FrameNames) (reader : Bool → MbfReader α) (bytes : List Byte) :
    Except DomainError α :=
  if bytes.length < 16 then .error (corrupt names.header)
  else if bytes.take 8 ≠ names.magic ∧ bytes.take 8 ≠ names.magicV1 then
    .error (corrupt names.unknown)
  else if bytes.length < 16 + leAt bytes 8 8 then .error (corrupt names.stream)
  else
    match WireFormats.decompress ((bytes.drop 16).take (leAt bytes 8 8)) with
    | .error e => .error (corrupt (names.lz4 ++ e))
    | .ok raw => (reader (bytes.take 8 = names.magic) raw).map Prod.fst

/-- A known frame with a length that no sum with 16 holds. -/
def Overflows (names : FrameNames) (bytes : List Byte) : Prop :=
  16 ≤ bytes.length ∧ (bytes.take 8 = names.magic ∨ bytes.take 8 = names.magicV1) ∧
    2 ^ 64 ≤ 16 + leAt bytes 8 8

variable {names : FrameNames} {read : Bool → List Byte → Cursor DomainError α}
  {reader : Bool → MbfReader α} {bytes : List Byte}

theorem decodeFramed_of_overflows (h : Overflows names bytes) :
    decodeFramed names read bytes = .error .panic := by
  obtain ⟨hlong, hknown, hover⟩ := h
  have hsum : (usizeAdd 16 (leAt bytes 8 8) : Checked DomainError ℕ) = .error .panic :=
    if_neg (by omega)
  have hat : ofBeBytes ((bytes.drop 8).take 8).reverse = leAt bytes 8 8 := rfl
  have hfront : (slice bytes 0 8 : Checked DomainError (List Byte)) = .ok (bytes.take 8) :=
    slice_eq (by omega) (by omega)
  unfold decodeFramed
  rw [failIf_bind, if_neg (by omega), hfront, ok_bind, failIf_bind, if_neg (by tauto),
    slice_eq (by omega) (by omega), ok_bind, hat, hsum]
  rfl

/-- Every other frame is read as over byte strings. -/
theorem decodeFramed_eq (hlz4 : Bounded)
    (hread : ∀ isV2 raw, raw.length < 2 ^ 63 → Implements raw (read isV2 raw) (reader isV2))
    (h : ¬Overflows names bytes) :
    decodeFramed names read bytes = ofExcept (framed names reader bytes) := by
  unfold decodeFramed framed
  rw [failIf_bind]
  by_cases hshort : bytes.length < 16
  · rw [if_pos hshort, if_pos hshort]
    rfl
  have hfront : (slice bytes 0 8 : Checked DomainError (List Byte)) = .ok (bytes.take 8) :=
    slice_eq (by omega) (by omega)
  have hlen : (slice bytes 8 16 : Checked DomainError (List Byte)) = .ok ((bytes.drop 8).take 8) :=
    slice_eq (by omega) (by omega)
  have hat : ofBeBytes ((bytes.drop 8).take 8).reverse = leAt bytes 8 8 := rfl
  rw [if_neg hshort, if_neg hshort, hfront, ok_bind, failIf_bind]
  by_cases hmagic : bytes.take 8 ≠ names.magic ∧ bytes.take 8 ≠ names.magicV1
  · rw [if_pos hmagic, if_pos hmagic]
    rfl
  have hsum : 16 + leAt bytes 8 8 < 2 ^ 64 := by
    by_contra hover
    exact h ⟨by omega, by tauto, by omega⟩
  rw [if_neg hmagic, if_neg hmagic, hlen, ok_bind, hat, usizeAdd_eq hsum, ok_bind, failIf_bind]
  by_cases hcut : bytes.length < 16 + leAt bytes 8 8
  · rw [if_pos hcut, if_pos hcut]
    rfl
  rw [if_neg hcut, if_neg hcut, slice_eq (by omega) (by omega), ok_bind, Nat.add_sub_cancel_left]
  cases hstream : WireFormats.decompress ((bytes.drop 16).take (leAt bytes 8 8)) with
  | error e => rfl
  | ok raw => exact (hread _ raw (hlz4 _ raw hstream)).whole

theorem decodeFramed_panic_iff (hlz4 : Bounded)
    (hread : ∀ isV2 raw, raw.length < 2 ^ 63 → Implements raw (read isV2 raw) (reader isV2)) :
    decodeFramed names read bytes = .error .panic ↔ Overflows names bytes := by
  constructor
  · intro hpanic
    by_contra h
    rw [decodeFramed_eq hlz4 hread h] at hpanic
    exact ofExcept_ne_panic _ hpanic
  · exact decodeFramed_of_overflows

end Frames

/-! ### Envelopes -/

section Envelopes
variable [FileDigests]

omit [FileDigests] in
theorem columns_head (bytes : List Byte) :
    (directoryOf bytes).columns.head?.map (·.byteLen) =
      if 0 < MbfDirectoryIndex.columnCount bytes then some (leAt bytes 152 8) else none := by
  have hlen : (ColumnChunkDescriptor.read ((bytes.drop (136 + 0 * 32)).take 32)).byteLen =
      leAt bytes 152 8 := by
    simp only [ColumnChunkDescriptor.read, leAt, List.drop_take, List.take_take, List.drop_drop]
    rfl
  unfold directoryOf columnsOf
  cases MbfDirectoryIndex.columnCount bytes with
  | zero => rfl
  | succ count =>
    rw [if_pos (by omega), List.range'_succ, List.map_cons, List.head?_cons, Option.map_some, hlen]

/-- An envelope stops the machine exactly when it passes and its first column has a length that
no sum with 128 holds. -/
theorem decodeMbfEnvelope_panic_iff {file : List Byte} (hfile : file.length < 2 ^ 63) :
    decodeMbfEnvelope file = .error .panic ↔ Passes file ∧
      0 < MbfDirectoryIndex.columnCount (directoryBytes file) ∧
      2 ^ 64 ≤ 128 + leAt (directoryBytes file) 152 8 := by
  obtain ⟨hopen, hrefuse⟩ := openMbfEnvelope_iff hfile
  by_cases hpasses : Passes file
  case neg =>
    obtain ⟨e, he⟩ := hrefuse hpasses
    unfold decodeMbfEnvelope
    rw [he]
    exact ⟨fun h => (nomatch h), fun h => absurd h.1 hpasses⟩
  have hbounds := hpasses.bounds
  have hhead := columns_head (directoryBytes file)
  unfold decodeMbfEnvelope
  rw [hopen hpasses, ok_bind]
  dsimp only
  have hfits : 128 + payloadLen (footerOf file).directoryOffset (directoryOf (directoryBytes file)) <
      2 ^ 64 ↔ ¬(0 < MbfDirectoryIndex.columnCount (directoryBytes file) ∧
        2 ^ 64 ≤ 128 + leAt (directoryBytes file) 152 8) := by
    unfold payloadLen
    cases hcolumn : (directoryOf (directoryBytes file)).columns.head? with
    | none =>
      rw [hcolumn] at hhead
      have hzero : ¬0 < MbfDirectoryIndex.columnCount (directoryBytes file) := by
        intro hpos
        rw [if_pos hpos] at hhead
        cases hhead
      constructor
      · intro _ h
        exact hzero h.1
      · intro _
        dsimp only
        omega
    | some c =>
      rw [hcolumn, Option.map_some] at hhead
      split_ifs at hhead with hpos
      have hlen := Option.some.inj hhead
      dsimp only
      rw [hlen]
      constructor
      · intro h h'
        omega
      · intro h
        by_contra hover
        exact h ⟨hpos, by omega⟩
  by_cases hover : 128 + payloadLen (footerOf file).directoryOffset
      (directoryOf (directoryBytes file)) < 2 ^ 64
  · rw [usizeAdd_eq hover, ok_bind, slice_eq (by omega) (by omega)]
    exact ⟨fun h => (nomatch h), fun h => absurd h.2 (hfits.mp hover)⟩
  · have hsum : (usizeAdd 128 (payloadLen (footerOf file).directoryOffset
        (directoryOf (directoryBytes file))) : Checked DomainError ℕ) = .error .panic := if_neg hover
    rw [hsum]
    exact ⟨fun _ => ⟨hpasses, not_not.mp fun h => hover (hfits.mpr h)⟩, fun _ => rfl⟩

end Envelopes

/-! ### Hot heads -/

section HotHeads
variable [FileDigests] [WireFormats]

omit [FileDigests] [WireFormats] in
def readSignature (bytes : List Byte) : Tx.TxConflictSignature where
  baseEpochId := leAt bytes 0 8
  newEpochId := leAt bytes 8 8
  readSetBloom := BitVec.ofNat 64 (leAt bytes 16 8)
  writeSetBloom := BitVec.ofNat 64 (leAt bytes 24 8)

omit [FileDigests] [WireFormats] in
/-- The mask of a frame on disk, off again. -/
def unmask (bytes : List Byte) : List Byte :=
  bytes.zipIdx.map fun e => e.1 ^^^ 0xA5 ^^^ Fin.ofNat 256 (e.2 * 31)

omit [FileDigests] in
def readFrames (bytes : List Byte) (payloadEnd : ℕ) :
    ℕ → ℕ → Checked DomainError (List Tx.CommittedDeltaFrame)
  | 0, _ => .ok []
  | count + 1, offset => do
    let stop ← usizeAdd offset 36
    failIf (payloadEnd < stop) "Truncated HOT_HEAD frame header"
    let sigEnd ← usizeAdd offset 32
    let sig ← slice bytes offset sigEnd
    let lenEnd ← usizeAdd sigEnd 4
    let len ← slice bytes sigEnd lenEnd
    let payloadStop ← usizeAdd lenEnd (ofBeBytes len.reverse)
    failIf (payloadEnd < payloadStop) "Truncated HOT_HEAD frame payload"
    let masked ← slice bytes lenEnd payloadStop
    match WireFormats.decompress (unmask masked) with
    | .error e => fail ("HOT_HEAD LZ4 decompress error: " ++ e)
    | .ok decompressed =>
      match fromUtf8 decompressed with
      | none => fail ("HOT_HEAD UTF-8 error: " ++ WireFormats.utf8Error decompressed)
      | some payloadJson => do
        let frames ← readFrames bytes payloadEnd count payloadStop
        return ⟨readSignature sig, payloadJson⟩ :: frames

def decodeHotHeadBinary (bytes : List Byte) : Checked DomainError (List Tx.CommittedDeltaFrame) := do
  failIf (bytes.length < 128 ∨ bytes.length % 64 ≠ 0)
    ("Invalid HOT_HEAD.mbf size: " ++ toString bytes.length ++ " bytes")
  let front ← slice bytes 0 8
  let back ← slice bytes (bytes.length - 8) bytes.length
  failIf (front ≠ mbfMagic ∨ back ≠ mbfFooterMagic) "Invalid HOT_HEAD.mbf magic or footer magic"
  let footerBytes ← slice bytes (bytes.length - 64) bytes.length
  let footer ← within "HOT_HEAD footer error" (MbfFooterTrailer.fromBytes footerBytes)
  let headerBytes ← slice bytes 0 64
  failIf (footer.headerCrc32c ≠ (FileDigests.crc32 headerBytes).val) "HOT_HEAD header CRC32C mismatch"
  let first ← usizeAdd 64 8
  let payloadEnd := bytes.length - 64
  if payloadEnd < first then .ok []
  else do
    let count ← slice bytes 64 68
    readFrames bytes payloadEnd (ofBeBytes count.reverse) first

omit [FileDigests] in
theorem readFrames_ne_panic {bytes : List Byte} {payloadEnd : ℕ} (hend : payloadEnd ≤ bytes.length)
    (hbytes : bytes.length < 2 ^ 63) (count offset : ℕ) (hoffset : offset ≤ payloadEnd) :
    readFrames bytes payloadEnd count offset ≠ .error .panic := by
  induction count generalizing offset with
  | zero => exact fun h => nomatch h
  | succ count ih =>
    unfold readFrames
    rw [usizeAdd_eq (by omega), ok_bind, failIf_bind]
    by_cases hheader : payloadEnd < offset + 36
    · rw [if_pos hheader]
      exact fun h => nomatch h
    have hlen := foldl_lt ((bytes.drop (offset + 32)).take 4).reverse 0
    rw [List.length_reverse, List.length_take, List.length_drop, min_eq_left (by omega)] at hlen
    rw [if_neg hheader, usizeAdd_eq (by omega), ok_bind, slice_eq (by omega) (by omega), ok_bind,
      usizeAdd_eq (by omega), ok_bind, slice_eq (by omega) (by omega), ok_bind,
      Nat.add_sub_cancel_left, Nat.add_sub_cancel_left]
    generalize hmasked : ofBeBytes ((bytes.drop (offset + 32)).take 4).reverse = maskedLen
    have hsmall : maskedLen < 2 ^ 32 := by
      rw [← hmasked]
      exact hlen.trans_eq (by norm_num)
    rw [usizeAdd_eq (by omega), ok_bind, failIf_bind]
    by_cases hpayload : payloadEnd < offset + 32 + 4 + maskedLen
    · rw [if_pos hpayload]
      exact fun h => nomatch h
    rw [if_neg hpayload, slice_eq (by omega) (by omega), ok_bind]
    cases WireFormats.decompress (unmask _) with
    | error e => exact fun h => nomatch h
    | ok decompressed =>
      dsimp only
      cases fromUtf8 decompressed with
      | none => exact fun h => nomatch h
      | some payloadJson =>
        dsimp only
        have hrest := ih (offset + 32 + 4 + maskedLen) (by omega)
        cases hframes : readFrames bytes payloadEnd count (offset + 32 + 4 + maskedLen) with
        | ok frames => exact fun h => nomatch h
        | error e =>
          rw [hframes] at hrest
          cases e with
          | panic => exact absurd rfl hrest
          | err e => exact fun h => nomatch h

theorem decodeHotHeadBinary_ne_panic {bytes : List Byte} (hbytes : bytes.length < 2 ^ 63) :
    decodeHotHeadBinary bytes ≠ .error .panic := by
  unfold decodeHotHeadBinary
  rw [failIf_bind]
  by_cases hsize : bytes.length < 128 ∨ bytes.length % 64 ≠ 0
  · rw [if_pos hsize]
    exact fun h => nomatch h
  have hfooter : (bytes.drop (bytes.length - 64)).length = 64 := by
    rw [List.length_drop]
    omega
  have htail : (slice bytes (bytes.length - 64) bytes.length : Checked DomainError (List Byte)) =
      .ok (bytes.drop (bytes.length - 64)) := by
    rw [slice_eq (by omega) le_rfl, List.take_of_length_le]
    rw [List.length_drop]
  rw [if_neg hsize, slice_eq (by omega) (by omega), ok_bind, slice_eq (by omega) le_rfl, ok_bind,
    failIf_bind]
  split_ifs
  · exact fun h => nomatch h
  rw [htail, ok_bind, footer_fromBytes hfooter]
  split_ifs
  · exact fun h => nomatch h
  rw [within_ok, ok_bind, slice_eq (by omega) (by omega), ok_bind, failIf_bind]
  split_ifs
  · exact fun h => nomatch h
  rw [usizeAdd_eq (by omega), ok_bind]
  dsimp only
  split_ifs
  · exact fun h => nomatch h
  rw [slice_eq (by omega) (by omega), ok_bind]
  exact readFrames_ne_panic (by omega) hbytes _ _ (by omega)

end HotHeads

/-- Which files stop the machine: for an envelope, those that pass with a first column whose
length has no sum with 128; for the two payloads, those whose stream length has no sum with
16. A hot head stops it never. -/
theorem decoders_panic_iff [FileDigests] [WireFormats] (hlz4 : Bounded) (bytes : List Byte)
    (hbytes : bytes.length < 2 ^ 63) :
    (decodeMbfEnvelope bytes = .error .panic ↔ Passes bytes ∧
      0 < MbfDirectoryIndex.columnCount (directoryBytes bytes) ∧
      2 ^ 64 ≤ 128 + leAt (directoryBytes bytes) 152 8) ∧
    (decodePartition bytes = .error .panic ↔ 16 ≤ bytes.length ∧
      (bytes.take 8 = MbfPartitionWireSnapshot.magic ∨
        bytes.take 8 = MbfPartitionWireSnapshot.magicV1) ∧ 2 ^ 64 ≤ 16 + leAt bytes 8 8) ∧
    (decodeEntity bytes = .error .panic ↔ 16 ≤ bytes.length ∧
      (bytes.take 8 = MbfEntityWireSnapshot.magic ∨
        bytes.take 8 = MbfEntityWireSnapshot.magicV1) ∧ 2 ^ 64 ≤ 16 + leAt bytes 8 8) ∧
    decodeHotHeadBinary bytes ≠ .error .panic := by
  refine ⟨decodeMbfEnvelope_panic_iff hbytes, ?_, ?_, decodeHotHeadBinary_ne_panic hbytes⟩
  · exact decodeFramed_panic_iff hlz4 fun isV2 _ hraw => implements_partition hraw isV2
  · exact decodeFramed_panic_iff hlz4 fun isV2 _ hraw => implements_entity hraw isV2

/-- A stream that holds its bytes as they are, below the length that its size can say. -/
@[reducible] def storedSized : WireFormats where
  compress := id
  decompress := fun stream =>
    if stream.length < 2 ^ 32 then .ok stream else .error "the size does not fit"
  utf8Error := fun _ => "invalid utf-8 sequence"
  fromUtf8Lossy := fun bytes => (fromUtf8 bytes).getD ""
  decompress_compress := fun _ h => if_pos h
  fromUtf8Lossy_utf8 := WireFormats.stored.fromUtf8Lossy_utf8

theorem storedSized_bounded : @Bounded storedSized := by
  intro stream raw h
  change (if stream.length < 2 ^ 32 then Except.ok stream else .error _) = _ at h
  split_ifs at h with hsize
  cases h
  omega

/-- A partition payload that says its stream has `2 ^ 64 - 1` bytes. -/
def endlessStream : List Byte := MbfPartitionWireSnapshot.magic ++ List.replicate 8 255

theorem decoders_panic_iff_endless :
    (@decodeMbfEnvelope sumDigests endlessStream = .error .panic ↔ @Passes sumDigests endlessStream ∧
      0 < MbfDirectoryIndex.columnCount (directoryBytes endlessStream) ∧
      2 ^ 64 ≤ 128 + leAt (directoryBytes endlessStream) 152 8) ∧
    (@decodePartition storedSized endlessStream = .error .panic ↔ 16 ≤ endlessStream.length ∧
      (endlessStream.take 8 = MbfPartitionWireSnapshot.magic ∨
        endlessStream.take 8 = MbfPartitionWireSnapshot.magicV1) ∧
        2 ^ 64 ≤ 16 + leAt endlessStream 8 8) ∧
    (@decodeEntity storedSized endlessStream = .error .panic ↔ 16 ≤ endlessStream.length ∧
      (endlessStream.take 8 = MbfEntityWireSnapshot.magic ∨
        endlessStream.take 8 = MbfEntityWireSnapshot.magicV1) ∧
        2 ^ 64 ≤ 16 + leAt endlessStream 8 8) ∧
    @decodeHotHeadBinary sumDigests storedSized endlessStream ≠ .error .panic :=
  @decoders_panic_iff sumDigests storedSized storedSized_bounded endlessStream (by decide +kernel)

/-- Sixteen bytes stop the decoder of a partition. -/
theorem endlessStream_panics : @decodePartition storedSized endlessStream = .error .panic := by
  let _ := storedSized
  apply decodeFramed_of_overflows
  exact ⟨by decide +kernel, .inl (by decide +kernel), by decide +kernel⟩

end MetriEngine.Storage.Decoders
