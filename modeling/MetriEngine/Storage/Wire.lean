import MetriEngine.Foundation.Reader
import MetriEngine.Storage.Partition

/-!
# Snapshots as bytes

The payload of a partition object: a magic, the length of the compressed stream, the stream,
and zeros up to a multiple of 64 bytes. In the stream a partition key that repeats is a flag,
an attribute that repeats the key is a bit, a usual attribute name is one byte, and a value
that begins with the tenant of its key leaves that beginning out. Compression and the two
ways of reading bytes that are no text are parameters.
-/
namespace MetriEngine.Storage
open Foundation

/-- `lz4_flex` with the size in front, the text of a `Utf8Error`, and `from_utf8_lossy`. -/
class WireFormats where
  compress : List Byte → List Byte
  decompress : List Byte → Except String (List Byte)
  utf8Error : List Byte → String
  fromUtf8Lossy : List Byte → String
  decompress_compress : ∀ raw, raw.length < 2 ^ 32 → decompress (compress raw) = .ok raw
  fromUtf8Lossy_utf8 : ∀ s, fromUtf8Lossy (utf8 s) = s

/-- `String::from_utf8` -/
def fromUtf8 (bytes : List Byte) : Option String :=
  String.fromUTF8? ⟨(bytes.map UInt8.ofFin).toArray⟩

theorem fromUtf8_utf8 (s : String) : fromUtf8 (utf8 s) = some s := by
  have hbytes : (utf8 s).map UInt8.ofFin = s.toByteArray.data.toList := by
    rw [utf8, List.map_map]
    exact List.map_id _
  rw [fromUtf8, hbytes, Array.toArray_toList]
  exact dif_pos s.isValidUTF8

/-- A stream that holds its bytes as they are. -/
@[reducible] def WireFormats.stored : WireFormats where
  compress := id
  decompress := .ok
  utf8Error := fun _ => "invalid utf-8 sequence"
  fromUtf8Lossy := fun bytes => (fromUtf8 bytes).getD ""
  decompress_compress := fun _ _ => rfl
  fromUtf8Lossy_utf8 := fun s => by rw [fromUtf8_utf8, Option.getD_some]

abbrev MbfReader := Reader DomainError

def corrupt (detail : String) : DomainError := ⟨.mbfCorrupt001, detail⟩

/-! ### Bytes and text -/

theorem utf8_append (s t : String) : utf8 (s ++ t) = utf8 s ++ utf8 t := by
  simp [utf8, String.toByteArray_append]

def writeBytesSlice (bytes : List Byte) : List Byte := leBytes 4 (bytes.length % 2 ^ 32) ++ bytes

def readBytesSlice : MbfReader (List Byte) := do
  let len ← readLe 4 (corrupt "Truncated byte slice length in MBF binary payload")
  takeBytes len (corrupt "Truncated byte slice body in MBF binary payload")

theorem reads_bytesSlice {bytes : List Byte} (h : bytes.length < 2 ^ 32) :
    Reads readBytesSlice (writeBytesSlice bytes) bytes := by
  rw [writeBytesSlice, Nat.mod_eq_of_lt h]
  exact (reads_readLe _ (by simpa using h)).bind (reads_takeBytes _ rfl)

def writeStrBinary (s : String) : List Byte := writeBytesSlice (utf8 s)

section Text
variable [WireFormats]

def readStrBinary : MbfReader String := do
  let raw ← readBytesSlice
  match fromUtf8 raw with
  | some s => return s
  | none => throw (corrupt ("Invalid UTF-8 in MBF binary string: " ++ WireFormats.utf8Error raw))

theorem reads_strBinary {s : String} (h : (utf8 s).length < 2 ^ 32) :
    Reads readStrBinary (writeStrBinary s) s := by
  have hread := (reads_bytesSlice h).bind (f := fun raw => match fromUtf8 raw with
    | some s => (return s : MbfReader String)
    | none => throw (corrupt ("Invalid UTF-8 in MBF binary string: " ++ WireFormats.utf8Error raw)))
    (a := utf8 s) (b := s) (by rw [fromUtf8_utf8]; exact Reads.pure s)
  rwa [List.append_nil] at hread

/-! ### Values -/

/-- `"T#system#"`, with the number sign: what a key says of its tenant. -/
def extractTenantPrefix (pk : String) : Option String :=
  (Text.stripPrefix "T#" pk).bind fun rest =>
    (Text.splitOnce "#" rest).map fun parts => "T#" ++ parts.1 ++ "#"

def writeAttributeValueBinary : AttributeValue → List Byte
  | .s text => 0x01 :: writeStrBinary text
  | .n text => 0x02 :: writeStrBinary text
  | .b blob => 0x03 :: writeBytesSlice blob
  | .bool value => [0x04, if value then 1 else 0]
  | .null value => [0x05, if value then 1 else 0]

/-- The three index namespaces of a tenant and the tags of the values inside them. -/
def compactTags : List (String × Byte) := [("A#", 0x11), ("V#", 0x12), ("R#", 0x13)]

/-- The tag of a text under its tenant's index namespaces, and the rest of the text. -/
def compactText (tenantPrefix : Option String) (text : String) : Option (Byte × String) :=
  (tenantPrefix.bind fun tp => Text.stripPrefix tp text).bind fun afterTp =>
    compactTags.findSome? fun tag =>
      (Text.stripPrefix tag.1 afterTp).map fun suffix => (tag.2, suffix)

def writeAttributeValueCompact (val : AttributeValue) (tenantPrefix : Option String) : List Byte :=
  match val with
  | .s text =>
    match compactText tenantPrefix text with
    | some (tag, suffix) => tag :: writeStrBinary suffix
    | none => writeAttributeValueBinary val
  | _ => writeAttributeValueBinary val

/-- `{:02X}` -/
def hexByte (b : Byte) : String :=
  String.ofList (((Nat.toDigits 16 b.val).map Char.toUpper).leftpad 2 '0')

def readAttributeValueCompact (tenantPrefix : Option String) : MbfReader AttributeValue := do
  let tag ← takeByte (corrupt "Unexpected EOF reading binary AttributeValue tag")
  match tag.val with
  | 0x01 => return .s (← readStrBinary)
  | 0x02 => return .n (← readStrBinary)
  | 0x03 => return .b (← readBytesSlice)
  | 0x04 => return .bool ((← takeByte (corrupt "Truncated Bool AttributeValue")) != 0)
  | 0x05 => return .null ((← takeByte (corrupt "Truncated Null AttributeValue")) != 0)
  | 0x11 => return .s (tenantPrefix.getD "T#system#" ++ "A#" ++ (← readStrBinary))
  | 0x12 => return .s (tenantPrefix.getD "T#system#" ++ "V#" ++ (← readStrBinary))
  | 0x13 => return .s (tenantPrefix.getD "T#system#" ++ "R#" ++ (← readStrBinary))
  | _ => throw (corrupt ("Unknown binary AttributeValue tag: 0x" ++ hexByte tag))

def readAttributeValueBinary : MbfReader AttributeValue := readAttributeValueCompact none

/-- The lengths in a value fit the four bytes that hold them. -/
def AttributeValue.Fits : AttributeValue → Prop
  | .s text => (utf8 text).length < 2 ^ 32
  | .n text => (utf8 text).length < 2 ^ 32
  | .b blob => blob.length < 2 ^ 32
  | _ => True

omit [WireFormats] in
instance : DecidablePred AttributeValue.Fits
  | .s text => inferInstanceAs (Decidable ((utf8 text).length < 2 ^ 32))
  | .n text => inferInstanceAs (Decidable ((utf8 text).length < 2 ^ 32))
  | .b blob => inferInstanceAs (Decidable (blob.length < 2 ^ 32))
  | .bool _ => inferInstanceAs (Decidable True)
  | .null _ => inferInstanceAs (Decidable True)

omit [WireFormats] in
theorem stripPrefix_eq_some {p s rest : String} (h : Text.stripPrefix p s = some rest) :
    s = p ++ rest := by
  unfold Text.stripPrefix at h
  split_ifs at h with hprefix
  obtain ⟨t, ht⟩ := List.isPrefixOf_iff_prefix.mp hprefix
  cases h
  apply String.toList_inj.mp
  rw [String.toList_append, String.toList_ofList, ← ht, List.drop_left]

omit [WireFormats] in
theorem compactText_eq_some {tenantPrefix : Option String} {text suffix : String} {tag : Byte}
    (h : compactText tenantPrefix text = some (tag, suffix)) :
    ∃ tp, tenantPrefix = some tp ∧ ∃ space, (space, tag) ∈ compactTags ∧
      text = tp ++ space ++ suffix := by
  obtain ⟨afterTp, hstrip, hfind⟩ := Option.bind_eq_some_iff.mp h
  obtain ⟨tp, htp, hstrip⟩ := Option.bind_eq_some_iff.mp hstrip
  obtain ⟨⟨space, tag'⟩, hmem, hsuffix⟩ := List.exists_of_findSome?_eq_some hfind
  obtain ⟨suffix', hsuffix, heq⟩ := Option.map_eq_some_iff.mp hsuffix
  cases heq
  refine ⟨tp, htp, space, hmem, ?_⟩
  rw [stripPrefix_eq_some hstrip, stripPrefix_eq_some hsuffix, String.append_assoc]

omit [WireFormats] in
theorem reads_tagged {α : Type} {tag : Byte} {bytes : List Byte} {a : α} {f : Byte → MbfReader α}
    (err : DomainError) (h : Reads (f tag) bytes a) : Reads (takeByte err >>= f) (tag :: bytes) a :=
  (reads_takeByte err tag).bind h

theorem reads_attributeValueBinary {val : AttributeValue} (h : val.Fits)
    (tenantPrefix : Option String) :
    Reads (readAttributeValueCompact tenantPrefix) (writeAttributeValueBinary val) val := by
  cases val with
  | s text => exact reads_tagged _ ((reads_strBinary h).map AttributeValue.s)
  | n text => exact reads_tagged _ ((reads_strBinary h).map AttributeValue.n)
  | b blob => exact reads_tagged _ ((reads_bytesSlice h).map AttributeValue.b)
  | bool value => cases value <;> exact fun _ => rfl
  | null value => cases value <;> exact fun _ => rfl

theorem reads_attributeValueCompact {val : AttributeValue} (h : val.Fits)
    (tenantPrefix : Option String) :
    Reads (readAttributeValueCompact tenantPrefix) (writeAttributeValueCompact val tenantPrefix)
      val := by
  cases val with
  | s text =>
    simp only [writeAttributeValueCompact]
    cases hcompact : compactText tenantPrefix text with
    | none => exact reads_attributeValueBinary h tenantPrefix
    | some found =>
      obtain ⟨tag, suffix⟩ := found
      obtain ⟨tp, rfl, space, hmem, rfl⟩ := compactText_eq_some hcompact
      have hsuffix : (utf8 suffix).length < 2 ^ 32 := by
        have hall : (utf8 (tp ++ space ++ suffix)).length < 2 ^ 32 := h
        rw [utf8_append, List.length_append] at hall
        omega
      have hread := (reads_strBinary hsuffix).map fun suffix =>
        AttributeValue.s (tp ++ space ++ suffix)
      simp only [compactTags, List.mem_cons, List.not_mem_nil, or_false, Prod.mk.injEq] at hmem
      rcases hmem with ⟨rfl, rfl⟩ | ⟨rfl, rfl⟩ | ⟨rfl, rfl⟩ <;> exact reads_tagged _ hread
  | n text => exact reads_attributeValueBinary h tenantPrefix
  | b blob => exact reads_attributeValueBinary h tenantPrefix
  | bool value => exact reads_attributeValueBinary h tenantPrefix
  | null value => exact reads_attributeValueBinary h tenantPrefix

/-! ### Items -/

def readItemMapBinary : MbfReader Item := do
  let count ← readLe 4 (corrupt "Truncated binary item map length")
  let entries ← readMany (do return (← readStrBinary, ← readAttributeValueBinary)) count
  return (∅ : Item).insertList entries

/-- The names that are written as one byte. -/
def keyCodes : List (String × Byte) :=
  [("ap", 0x01), ("as", 0x02), ("v", 0x03), ("vp", 0x04), ("vs", 0x05), ("rp", 0x06), ("rs", 0x07),
    ("current_value", 0x08), ("updated_at", 0x09)]

def writeKey (name : String) : List Byte :=
  match keyCodes.lookup name with
  | some code => [code]
  | none => 0xFF :: writeStrBinary name

def readKey : MbfReader String := do
  let keyCode ← takeByte (corrupt "Unexpected EOF reading compact item key code")
  match keyCodes.find? fun e => e.2 = keyCode with
  | some e => return e.1
  | none =>
    if keyCode = 0xFF then readStrBinary
    else throw (corrupt ("Unknown compact item key code: 0x" ++ hexByte keyCode))

/-- Whether an item repeats the key it is stored under, and how. -/
def elidesPk (key : PrimaryKey) (item : Item) : Bool := item.lookup "PK" = some (.s key.pk)
def elidesSkBlob (key : PrimaryKey) (item : Item) : Bool := item.lookup "SK" = some (.b key.sk)
def elidesSkStr (key : PrimaryKey) (item : Item) : Bool :=
  !elidesSkBlob key item && match item.lookup "SK" with
    | some (.s text) => utf8 text = key.sk
    | _ => false

/-- What is written of an item beyond its key. -/
def compactEntries (key : PrimaryKey) (item : Item) : List (String × AttributeValue) :=
  item.entries.filter fun e =>
    !(e.1 = "PK" && elidesPk key item) &&
      !(e.1 = "SK" && (elidesSkBlob key item || elidesSkStr key item))

def itemFlags (key : PrimaryKey) (item : Item) : Byte :=
  (if elidesPk key item then 1 else 0) +
    (if elidesSkBlob key item then 2 else if elidesSkStr key item then 4 else 0)

def writeEntryCompact (pk : String) (e : String × AttributeValue) : List Byte :=
  writeKey e.1 ++ writeAttributeValueCompact e.2 (extractTenantPrefix pk)

def writeItemMapCompact (key : PrimaryKey) (item : Item) : List Byte :=
  itemFlags key item :: leBytes 2 ((compactEntries key item).length % 2 ^ 16) ++
    (compactEntries key item).flatMap (writeEntryCompact key.pk)

/-- The part of an item that its key gives back. -/
def elided (key : PrimaryKey) (flags : Byte) : Item :=
  let item : Item := if flags.val.testBit 0 then (∅ : Item).insert "PK" (.s key.pk) else ∅
  if flags.val.testBit 1 then item.insert "SK" (.b key.sk)
  else if flags.val.testBit 2 then item.insert "SK" (.s (WireFormats.fromUtf8Lossy key.sk))
  else item

def readEntryCompact (pk : String) : MbfReader (String × AttributeValue) := do
  return (← readKey, ← readAttributeValueCompact (extractTenantPrefix pk))

def readItemMapCompact (key : PrimaryKey) : MbfReader Item := do
  let header ← takeBytes 3 (corrupt "Truncated compact item map header")
  let entries ← readMany (readEntryCompact key.pk) (ofBeBytes (header.drop 1).reverse)
  return (elided key (header.headD 0)).insertList entries

def FitsEntry (e : String × AttributeValue) : Prop := (utf8 e.1).length < 2 ^ 32 ∧ e.2.Fits

/-- The lengths in a row fit, and so does the number of its attributes. -/
structure FitsRow (e : PrimaryKey × Item) : Prop where
  pk : (utf8 e.1.pk).length < 2 ^ 32
  sk : e.1.sk.length < 2 ^ 32
  count : e.2.entries.length < 2 ^ 16
  entries : ∀ entry ∈ e.2.entries, FitsEntry entry

instance (e : String × AttributeValue) : Decidable (FitsEntry e) := by
  unfold FitsEntry
  infer_instance

instance (e : PrimaryKey × Item) : Decidable (FitsRow e) :=
  decidable_of_iff ((utf8 e.1.pk).length < 2 ^ 32 ∧ e.1.sk.length < 2 ^ 32 ∧
      e.2.entries.length < 2 ^ 16 ∧ ∀ entry ∈ e.2.entries, FitsEntry entry)
    ⟨fun ⟨pk, sk, count, entries⟩ => ⟨pk, sk, count, entries⟩,
      fun h => ⟨h.pk, h.sk, h.count, h.entries⟩⟩

theorem reads_key {name : String} (h : (utf8 name).length < 2 ^ 32) :
    Reads readKey (writeKey name) name := by
  unfold writeKey
  cases hcode : keyCodes.lookup name with
  | some code =>
    obtain ⟨before, after, heq, -⟩ := List.lookup_eq_some_iff.mp hcode
    have hmem : (name, code) ∈ keyCodes := heq ▸ by simp
    simp only [keyCodes, List.mem_cons, List.not_mem_nil, or_false, Prod.mk.injEq] at hmem
    rcases hmem with ⟨rfl, rfl⟩ | ⟨rfl, rfl⟩ | ⟨rfl, rfl⟩ | ⟨rfl, rfl⟩ | ⟨rfl, rfl⟩ | ⟨rfl, rfl⟩ |
      ⟨rfl, rfl⟩ | ⟨rfl, rfl⟩ | ⟨rfl, rfl⟩ <;> exact reads_tagged _ (Reads.pure _)
  | none => exact reads_tagged _ (reads_strBinary h)

theorem reads_entryCompact (pk : String) {e : String × AttributeValue} (h : FitsEntry e) :
    Reads (readEntryCompact pk) (writeEntryCompact pk e) e := by
  have hvalue := (reads_attributeValueCompact h.2 (extractTenantPrefix pk)).map fun v => (e.1, v)
  exact (reads_key h.1).bind (f := fun name => do
    return (name, ← readAttributeValueCompact (extractTenantPrefix pk))) hvalue

omit [WireFormats] in
theorem length_compactEntries (key : PrimaryKey) (item : Item) :
    (compactEntries key item).length ≤ item.entries.length := List.length_filter_le _ _

omit [WireFormats] in
theorem mem_compactEntries {key : PrimaryKey} {item : Item} {name : String} {v : AttributeValue} :
    (name, v) ∈ compactEntries key item ↔ item.lookup name = some v ∧
      ¬(name = "PK" ∧ elidesPk key item = true) ∧
      ¬(name = "SK" ∧ (elidesSkBlob key item = true ∨ elidesSkStr key item = true)) := by
  rw [compactEntries, List.mem_filter, OrdMap.lookup_eq_some]
  simp only [Bool.and_eq_true, Bool.not_eq_true', Bool.and_eq_false_iff, decide_eq_false_iff_not,
    Bool.or_eq_false_iff, not_and, Bool.not_eq_true, not_or]
  tauto

omit [WireFormats] in
theorem itemFlags_testBit (key : PrimaryKey) (item : Item) :
    (itemFlags key item).val.testBit 0 = elidesPk key item ∧
      (itemFlags key item).val.testBit 1 = elidesSkBlob key item ∧
      ((itemFlags key item).val.testBit 2 = elidesSkStr key item) := by
  have hapart : elidesSkBlob key item = true → elidesSkStr key item = false := by
    intro hblob
    rw [elidesSkStr, hblob]
    rfl
  unfold itemFlags
  cases elidesPk key item <;> cases hblob : elidesSkBlob key item <;>
    cases hstr : elidesSkStr key item <;> first | decide | exact absurd (hapart hblob) (by simp [hstr])

/-- The part that the key gives back, attribute by attribute. -/
theorem lookup_elided (key : PrimaryKey) (item : Item) (name : String) :
    (elided key (itemFlags key item)).lookup name =
      if name = "PK" ∧ elidesPk key item = true ∨
        name = "SK" ∧ (elidesSkBlob key item = true ∨ elidesSkStr key item = true)
      then item.lookup name else none := by
  obtain ⟨hpk, hblob, hstr⟩ := itemFlags_testBit key item
  unfold elided
  rw [hpk, hblob, hstr]
  have hpkValue : elidesPk key item = true → item.lookup "PK" = some (.s key.pk) :=
    fun h => of_decide_eq_true h
  have hblobValue : elidesSkBlob key item = true → item.lookup "SK" = some (.b key.sk) :=
    fun h => of_decide_eq_true h
  have hstrValue : elidesSkStr key item = true →
      item.lookup "SK" = some (.s (WireFormats.fromUtf8Lossy key.sk)) := by
    intro h
    rw [elidesSkStr, Bool.and_eq_true] at h
    obtain ⟨-, h⟩ := h
    split at h
    · rename_i text hlookup
      rw [hlookup, ← of_decide_eq_true h, WireFormats.fromUtf8Lossy_utf8]
    · cases h
  cases helidesPk : elidesPk key item <;> cases helidesBlob : elidesSkBlob key item <;>
    cases helidesStr : elidesSkStr key item <;>
    by_cases hname : name = "PK" <;> by_cases hname' : name = "SK" <;>
    simp_all

theorem elided_insertList (key : PrimaryKey) (item : Item) :
    (elided key (itemFlags key item)).insertList (compactEntries key item) = item := by
  have hnodup : ((compactEntries key item).map Prod.fst).Nodup :=
    item.keys_nodup.sublist (List.filter_sublist.map Prod.fst)
  apply OrdMap.ext
  intro name
  cases hlookup : item.lookup name with
  | none =>
    rw [OrdMap.lookup_insertList_of_notMem, lookup_elided, hlookup, ite_self]
    intro hmem
    obtain ⟨⟨name', v⟩, hin, rfl⟩ := List.mem_map.mp hmem
    rw [(mem_compactEntries.mp hin).1] at hlookup
    cases hlookup
  | some v =>
    by_cases hwritten : (name, v) ∈ compactEntries key item
    · exact OrdMap.lookup_insertList_of_mem _ hnodup hwritten
    · -- what is not written the key gives back
      rw [OrdMap.lookup_insertList_of_notMem, lookup_elided, hlookup, if_pos]
      · rw [mem_compactEntries, hlookup] at hwritten
        simp only [true_and] at hwritten
        tauto
      · intro hmem
        obtain ⟨⟨name', v'⟩, hin, rfl⟩ := List.mem_map.mp hmem
        have hsame := (mem_compactEntries.mp hin).1
        rw [hlookup] at hsame
        cases hsame
        exact hwritten hin

theorem reads_itemMapCompact (key : PrimaryKey) {item : Item}
    (hfew : item.entries.length < 2 ^ 16) (hfit : ∀ entry ∈ item.entries, FitsEntry entry) :
    Reads (readItemMapCompact key) (writeItemMapCompact key item) item := by
  have hcount : (compactEntries key item).length < 2 ^ 16 :=
    (length_compactEntries key item).trans_lt hfew
  have hentries := (reads_readMany (compactEntries key item) fun e he =>
    reads_entryCompact key.pk (hfit e (List.mem_of_mem_filter he))).map fun entries =>
      (elided key (itemFlags key item)).insertList entries
  rw [elided_insertList] at hentries
  have hheader : Reads (takeBytes 3 (corrupt "Truncated compact item map header"))
      (itemFlags key item :: leBytes 2 (compactEntries key item).length)
      (itemFlags key item :: leBytes 2 (compactEntries key item).length) :=
    reads_takeBytes _ (by simp)
  rw [writeItemMapCompact, Nat.mod_eq_of_lt hcount]
  refine hheader.bind ?_
  rw [List.drop_one, List.tail_cons, List.headD_cons, leBytes, List.reverse_reverse,
    ofBeBytes_beBytes (by simpa using hcount)]
  exact hentries

/-! ### Snapshots -/

/-- The rows of a snapshot after one with the key `prevPk`: a key that repeats is a flag. -/
def writeRows : String → List (PrimaryKey × Item) → List Byte
  | _, [] => []
  | prevPk, (key, item) :: rows =>
    (if prevPk ≠ "" ∧ key.pk = prevPk then [1] else 0 :: writeStrBinary key.pk) ++
      writeBytesSlice key.sk ++ writeItemMapCompact key item ++ writeRows key.pk rows

def readRows : ℕ → String → MbfReader (List (PrimaryKey × Item))
  | 0, _ => return []
  | count + 1, prevPk => do
    let samePk ← takeByte (corrupt "Truncated PK delta flag in MBFPART2")
    let pk ← if samePk ≠ 0 then pure prevPk else readStrBinary
    let sk ← readBytesSlice
    let item ← readItemMapCompact ⟨pk, sk⟩
    let rows ← readRows count pk
    return (⟨pk, sk⟩, item) :: rows

def readRowV1 : MbfReader (PrimaryKey × Item) := do
  let pk ← readStrBinary
  let sk ← readBytesSlice
  return (⟨pk, sk⟩, ← readItemMapBinary)

def writeI64 (z : ℤ) : List Byte := leBytes 8 (z % 2 ^ 64).toNat

def readI64 (err : DomainError) : MbfReader ℤ := (fun n : ℕ => wrapI64 n) <$> readLe 8 err

def writeCounter (e : QuotaKey × ℤ) : List Byte :=
  writeStrBinary (ofLex e.1).1 ++ (writeStrBinary (ofLex e.1).2 ++ writeI64 e.2)

def readCounter : MbfReader (QuotaKey × ℤ) := do
  let t ← readStrBinary
  let q ← readStrBinary
  return (toLex (t, q), ← readI64 (corrupt "Truncated quota counter value"))

def writeIdem (e : QuotaKey × (String × ℤ)) : List Byte :=
  writeStrBinary (ofLex e.1).1 ++ (writeStrBinary (ofLex e.1).2 ++
    (writeStrBinary e.2.1 ++ writeI64 e.2.2))

def readIdem : MbfReader (QuotaKey × (String × ℤ)) := do
  let t ← readStrBinary
  let ik ← readStrBinary
  let qid ← readStrBinary
  return (toLex (t, ik), (qid, ← readI64 (corrupt "Truncated quota idem delta")))

namespace MbfPartitionWireSnapshot

/-- The stream before it is compressed. -/
def rawBytes (snap : MbfPartitionWireSnapshot) : List Byte :=
  leBytes 8 (snap.epochId % 2 ^ 64) ++
    (leBytes 4 (snap.items.length % 2 ^ 32) ++ (writeRows "" snap.items ++
      (leBytes 4 (snap.quotaCounters.length % 2 ^ 32) ++ (snap.quotaCounters.flatMap writeCounter ++
        (leBytes 4 (snap.quotaIdem.length % 2 ^ 32) ++ snap.quotaIdem.flatMap writeIdem)))))

def readRaw (isV2 : Bool) : MbfReader MbfPartitionWireSnapshot := do
  let epochId ← readLe 8 (corrupt "Truncated MBFPartitionWireSnapshot header")
  let itemCount ← readLe 4 (corrupt "Truncated MBFPartitionWireSnapshot header")
  let items ← if isV2 then readRows itemCount "" else readMany readRowV1 itemCount
  let qcCount ← readLe 4 (corrupt "Truncated quota_counters count")
  let quotaCounters ← readMany readCounter qcCount
  let qiCount ← readLe 4 (corrupt "Truncated quota_idem count")
  let quotaIdem ← readMany readIdem qiCount
  return ⟨epochId, items, quotaCounters, quotaIdem⟩

def magicV1 : List Byte := utf8 "MBFPART1"
def magic : List Byte := utf8 "MBFPART2"

/-- `pad_to_64` -/
def padTo64 (bytes : List Byte) : List Byte :=
  bytes ++ List.replicate (if bytes.length % 64 = 0 then 0 else 64 - bytes.length % 64) 0

def encodeBinary (snap : MbfPartitionWireSnapshot) : List Byte :=
  let compressed := WireFormats.compress snap.rawBytes
  padTo64 (magic ++ leBytes 8 (compressed.length % 2 ^ 64) ++ compressed)

def decodeBinary (bytes : List Byte) : Except DomainError MbfPartitionWireSnapshot :=
  if bytes.length < 16 then
    .error (corrupt "Truncated MBFPartitionWireSnapshot header")
  else if bytes.take 8 ≠ magic ∧ bytes.take 8 ≠ magicV1 then
    .error (corrupt "Invalid MBFPartitionWireSnapshot magic (expected MBFPART1 or MBFPART2)")
  else
    let compLen := ofBeBytes ((bytes.drop 8).take 8).reverse
    if bytes.length < 16 + compLen then
      .error (corrupt "Truncated MBFPartitionWireSnapshot LZ4 stream")
    else
      match WireFormats.decompress ((bytes.drop 16).take compLen) with
      | .error e => .error (corrupt ("MBFPartitionWireSnapshot LZ4 error: " ++ e))
      | .ok raw => (readRaw (bytes.take 8 = magic) raw).map Prod.fst

/-- A snapshot whose lengths, counts and integers fit the fields that hold them. -/
structure Fits (snap : MbfPartitionWireSnapshot) : Prop where
  epochId : snap.epochId < 2 ^ 64
  items : snap.items.length < 2 ^ 32
  rows : ∀ e ∈ snap.items, FitsRow e
  counters : snap.quotaCounters.length < 2 ^ 32 ∧ ∀ e ∈ snap.quotaCounters,
    (utf8 (ofLex e.1).1).length < 2 ^ 32 ∧ (utf8 (ofLex e.1).2).length < 2 ^ 32 ∧
      -2 ^ 63 ≤ e.2 ∧ e.2 < 2 ^ 63
  idem : snap.quotaIdem.length < 2 ^ 32 ∧ ∀ e ∈ snap.quotaIdem,
    (utf8 (ofLex e.1).1).length < 2 ^ 32 ∧ (utf8 (ofLex e.1).2).length < 2 ^ 32 ∧
      (utf8 e.2.1).length < 2 ^ 32 ∧ -2 ^ 63 ≤ e.2.2 ∧ e.2.2 < 2 ^ 63
  raw : snap.rawBytes.length < 2 ^ 32
  compressed : (WireFormats.compress snap.rawBytes).length < 2 ^ 64

instance (snap : MbfPartitionWireSnapshot) : Decidable snap.Fits :=
  decidable_of_iff (snap.epochId < 2 ^ 64 ∧ snap.items.length < 2 ^ 32 ∧
      (∀ e ∈ snap.items, FitsRow e) ∧
      (snap.quotaCounters.length < 2 ^ 32 ∧ ∀ e ∈ snap.quotaCounters,
        (utf8 (ofLex e.1).1).length < 2 ^ 32 ∧ (utf8 (ofLex e.1).2).length < 2 ^ 32 ∧
          -2 ^ 63 ≤ e.2 ∧ e.2 < 2 ^ 63) ∧
      (snap.quotaIdem.length < 2 ^ 32 ∧ ∀ e ∈ snap.quotaIdem,
        (utf8 (ofLex e.1).1).length < 2 ^ 32 ∧ (utf8 (ofLex e.1).2).length < 2 ^ 32 ∧
          (utf8 e.2.1).length < 2 ^ 32 ∧ -2 ^ 63 ≤ e.2.2 ∧ e.2.2 < 2 ^ 63) ∧
      snap.rawBytes.length < 2 ^ 32 ∧ (WireFormats.compress snap.rawBytes).length < 2 ^ 64)
    ⟨fun ⟨epochId, items, rows, counters, idem, raw, compressed⟩ =>
        ⟨epochId, items, rows, counters, idem, raw, compressed⟩,
      fun h => ⟨h.epochId, h.items, h.rows, h.counters, h.idem, h.raw, h.compressed⟩⟩

end MbfPartitionWireSnapshot

theorem reads_rows {rows : List (PrimaryKey × Item)} (h : ∀ e ∈ rows, FitsRow e) :
    ∀ prevPk, Reads (readRows rows.length prevPk) (writeRows prevPk rows) rows := by
  induction rows with
  | nil => exact fun _ => Reads.pure _
  | cons e rows ih =>
    intro prevPk
    obtain ⟨⟨pk, sk⟩, item⟩ := e
    have hrow := h (⟨pk, sk⟩, item) List.mem_cons_self
    have hrows := (ih (fun e he => h e (List.mem_cons_of_mem _ he)) pk).map fun rows =>
      ((⟨pk, sk⟩, item) : PrimaryKey × Item) :: rows
    have hitem := (reads_itemMapCompact ⟨pk, sk⟩ hrow.count hrow.entries).bind (f := fun item => do
      let rows ← readRows rows.length pk
      return ((⟨pk, sk⟩, item) : PrimaryKey × Item) :: rows) hrows
    have hsk := (reads_bytesSlice hrow.sk).bind (f := fun sk => do
      let item ← readItemMapCompact ⟨pk, sk⟩
      let rows ← readRows rows.length pk
      return ((⟨pk, sk⟩, item) : PrimaryKey × Item) :: rows) hitem
    have hbytes : writeRows prevPk ((⟨pk, sk⟩, item) :: rows) =
        (if prevPk ≠ "" ∧ pk = prevPk then [1] else 0 :: writeStrBinary pk) ++
          (writeBytesSlice sk ++ (writeItemMapCompact ⟨pk, sk⟩ item ++ writeRows pk rows)) := by
      simp only [writeRows, List.append_assoc]
    rw [hbytes]
    by_cases hsame : prevPk ≠ "" ∧ pk = prevPk
    · obtain ⟨hne, rfl⟩ := hsame
      rw [if_pos ⟨hne, rfl⟩]
      exact reads_tagged _ hsk
    · rw [if_neg hsame]
      exact reads_tagged _ ((reads_strBinary hrow.pk).bind hsk)

omit [WireFormats] in
theorem reads_i64 (err : DomainError) {z : ℤ} (hlo : -2 ^ 63 ≤ z) (hhi : z < 2 ^ 63) :
    Reads (readI64 err) (writeI64 z) z := by
  have hnonneg := Int.emod_nonneg z (by norm_num : (2 ^ 64 : ℤ) ≠ 0)
  have hlt := Int.emod_lt_of_pos z (by norm_num : (0 : ℤ) < 2 ^ 64)
  have hread := (reads_readLe err (x := (z % 2 ^ 64).toNat) (n := 8) (by omega)).map
    fun n : ℕ => wrapI64 n
  have hvalue : wrapI64 ((z % 2 ^ 64).toNat : ℕ) = z := by
    rw [Int.toNat_of_nonneg hnonneg, wrapI64]
    omega
  rw [hvalue] at hread
  exact hread

theorem reads_counter {e : QuotaKey × ℤ} (ht : (utf8 (ofLex e.1).1).length < 2 ^ 32)
    (hq : (utf8 (ofLex e.1).2).length < 2 ^ 32) (hlo : -2 ^ 63 ≤ e.2) (hhi : e.2 < 2 ^ 63) :
    Reads readCounter (writeCounter e) e :=
  (reads_strBinary ht).bind ((reads_strBinary hq).bind
    ((reads_i64 _ hlo hhi).map fun value => (e.1, value)))

theorem reads_idem {e : QuotaKey × (String × ℤ)} (ht : (utf8 (ofLex e.1).1).length < 2 ^ 32)
    (hk : (utf8 (ofLex e.1).2).length < 2 ^ 32) (hq : (utf8 e.2.1).length < 2 ^ 32)
    (hlo : -2 ^ 63 ≤ e.2.2) (hhi : e.2.2 < 2 ^ 63) : Reads readIdem (writeIdem e) e :=
  (reads_strBinary ht).bind ((reads_strBinary hk).bind ((reads_strBinary hq).bind
    ((reads_i64 _ hlo hhi).map fun delta => (e.1, (e.2.1, delta)))))

/-- The compressor gives back this stream, and its length is a `usize`. -/
structure Streams (raw : List Byte) : Prop where
  roundTrip : WireFormats.decompress (WireFormats.compress raw) = .ok raw
  fits : (WireFormats.compress raw).length < 2 ^ 64

/-- What a decoder finds in a framed stream: the magic, the length and the stream. -/
structure FramedParts (magic compressed bytes : List Byte) : Prop where
  long : 16 + compressed.length ≤ bytes.length
  magic : bytes.take 8 = magic
  length : ofBeBytes ((bytes.drop 8).take 8).reverse = compressed.length
  stream : (bytes.drop 16).take compressed.length = compressed

omit [WireFormats] in
theorem framed_parts {magic compressed : List Byte} (hmagic : magic.length = 8)
    (hcompressed : compressed.length < 2 ^ 64) :
    FramedParts magic compressed (MbfPartitionWireSnapshot.padTo64
      (magic ++ leBytes 8 (compressed.length % 2 ^ 64) ++ compressed)) := by
  rw [Nat.mod_eq_of_lt hcompressed, MbfPartitionWireSnapshot.padTo64, List.append_assoc,
    List.append_assoc]
  generalize List.replicate _ (0 : Byte) = padding
  have hdrop : (magic ++ (leBytes 8 compressed.length ++ (compressed ++ padding))).drop 8 =
      leBytes 8 compressed.length ++ (compressed ++ padding) := List.drop_left' hmagic
  constructor
  · simp only [List.length_append, leBytes_length, hmagic]
    omega
  · exact List.take_left' hmagic
  · rw [hdrop, List.take_left' (leBytes_length 8 _), leBytes, List.reverse_reverse,
      ofBeBytes_beBytes (by simpa using hcompressed)]
  · rw [show 16 = 8 + 8 from rfl, ← List.drop_drop, hdrop, List.drop_left' (leBytes_length 8 _),
      List.take_left]

namespace MbfPartitionWireSnapshot
variable {snap : MbfPartitionWireSnapshot}

/-- The lengths, counts and integers of a snapshot fit the fields that hold them; nothing is
said of the stream as a whole. -/
structure FieldsFit (snap : MbfPartitionWireSnapshot) : Prop where
  epochId : snap.epochId < 2 ^ 64
  items : snap.items.length < 2 ^ 32
  rows : ∀ e ∈ snap.items, FitsRow e
  counters : snap.quotaCounters.length < 2 ^ 32 ∧ ∀ e ∈ snap.quotaCounters,
    (utf8 (ofLex e.1).1).length < 2 ^ 32 ∧ (utf8 (ofLex e.1).2).length < 2 ^ 32 ∧
      -2 ^ 63 ≤ e.2 ∧ e.2 < 2 ^ 63
  idem : snap.quotaIdem.length < 2 ^ 32 ∧ ∀ e ∈ snap.quotaIdem,
    (utf8 (ofLex e.1).1).length < 2 ^ 32 ∧ (utf8 (ofLex e.1).2).length < 2 ^ 32 ∧
      (utf8 e.2.1).length < 2 ^ 32 ∧ -2 ^ 63 ≤ e.2.2 ∧ e.2.2 < 2 ^ 63

theorem Fits.fields (h : snap.Fits) : snap.FieldsFit :=
  ⟨h.epochId, h.items, h.rows, h.counters, h.idem⟩

theorem Fits.streams (h : snap.Fits) : Streams snap.rawBytes :=
  ⟨WireFormats.decompress_compress _ h.raw, h.compressed⟩

theorem FieldsFit.reads_raw (h : snap.FieldsFit) : Reads (readRaw true) snap.rawBytes snap := by
  have hepoch := h.epochId
  have hitems := h.items
  have hcounters := h.counters.1
  have hidem := h.idem.1
  rw [rawBytes, Nat.mod_eq_of_lt hepoch, Nat.mod_eq_of_lt hitems, Nat.mod_eq_of_lt hcounters,
    Nat.mod_eq_of_lt hidem]
  refine (reads_readLe _ (by simpa using hepoch)).bind ?_
  refine (reads_readLe _ (by simpa using hitems)).bind ?_
  refine (reads_rows h.rows "").bind ?_
  refine (reads_readLe _ (by simpa using hcounters)).bind ?_
  refine (reads_readMany _ fun e he => ?_).bind ?_
  · obtain ⟨ht, hq, hlo, hhi⟩ := h.counters.2 e he
    exact reads_counter ht hq hlo hhi
  refine (reads_readLe _ (by simpa using hidem)).bind ?_
  refine (reads_readMany _ fun e he => ?_).map fun quotaIdem =>
    (⟨snap.epochId, snap.items, snap.quotaCounters, quotaIdem⟩ : MbfPartitionWireSnapshot)
  obtain ⟨ht, hk, hq, hlo, hhi⟩ := h.idem.2 e he
  exact reads_idem ht hk hq hlo hhi

/-- A snapshot is read back from its bytes, whatever shape its items have. -/
theorem FieldsFit.decode_encode (h : snap.FieldsFit) (hstream : Streams snap.rawBytes) :
    decodeBinary snap.encodeBinary = .ok snap := by
  have hframe := framed_parts (show magic.length = 8 by decide) hstream.fits
  unfold decodeBinary encodeBinary
  dsimp only
  have hlength := hframe.long
  rw [if_neg (by omega), hframe.magic, if_neg (by simp), hframe.length, if_neg (by omega),
    hframe.stream, hstream.roundTrip]
  dsimp only
  rw [decide_eq_true rfl, h.reads_raw.whole]
  rfl

theorem Fits.decode_encode (h : snap.Fits) : decodeBinary snap.encodeBinary = .ok snap :=
  h.fields.decode_encode h.streams

end MbfPartitionWireSnapshot
end Text
end MetriEngine.Storage

/-!
# Snapshots of one entity as bytes

The payload of an entity file: three texts, the epoch and the datoms of the entity under their
sort keys, in the frame of a partition payload. Both payloads are read back as they were
written, whatever their items repeat of the key they are stored under.
-/
namespace MetriEngine.Storage
open Foundation

structure MbfEntityWireSnapshot where
  tenantId : String
  entityType : String
  entityId : String
  epochId : ℕ
  datoms : List (List Byte × Item)
deriving DecidableEq

namespace MbfEntityWireSnapshot

/-- The partition key of an entity's datoms. -/
def entityPk (tenantId entityId : String) : String := "T#" ++ tenantId ++ "#E#" ++ entityId

def writeDatom (pk : String) (e : List Byte × Item) : List Byte :=
  writeBytesSlice e.1 ++ writeItemMapCompact ⟨pk, e.1⟩ e.2

/-- The stream before it is compressed. -/
def rawBytes (snap : MbfEntityWireSnapshot) : List Byte :=
  writeStrBinary snap.tenantId ++ (writeStrBinary snap.entityType ++
    (writeStrBinary snap.entityId ++ (leBytes 8 (snap.epochId % 2 ^ 64) ++
      (leBytes 4 (snap.datoms.length % 2 ^ 32) ++
        snap.datoms.flatMap (writeDatom (entityPk snap.tenantId snap.entityId))))))

def magicV1 : List Byte := utf8 "MBFENTZ1"
def magic : List Byte := utf8 "MBFENTZ2"

section Text
variable [WireFormats]

def readDatom (isV2 : Bool) (pk : String) : MbfReader (List Byte × Item) := do
  let sk ← readBytesSlice
  let item ← if isV2 then readItemMapCompact ⟨pk, sk⟩ else readItemMapBinary
  return (sk, item)

def readRaw (isV2 : Bool) : MbfReader MbfEntityWireSnapshot := do
  let tenantId ← readStrBinary
  let entityType ← readStrBinary
  let entityId ← readStrBinary
  let epochId ← readLe 8 (corrupt "Truncated MbfEntityWireSnapshot counts")
  let count ← readLe 4 (corrupt "Truncated MbfEntityWireSnapshot counts")
  let datoms ← readMany (readDatom isV2 (entityPk tenantId entityId)) count
  return ⟨tenantId, entityType, entityId, epochId, datoms⟩

def encodeBinary (snap : MbfEntityWireSnapshot) : List Byte :=
  let compressed := WireFormats.compress snap.rawBytes
  MbfPartitionWireSnapshot.padTo64 (magic ++ leBytes 8 (compressed.length % 2 ^ 64) ++ compressed)

def decodeBinary (bytes : List Byte) : Except DomainError MbfEntityWireSnapshot :=
  if bytes.length < 16 then
    .error (corrupt "Truncated MbfEntityWireSnapshot header")
  else if bytes.take 8 ≠ magic ∧ bytes.take 8 ≠ magicV1 then
    .error (corrupt "Invalid MbfEntityWireSnapshot magic (expected MBFENTZ1 or MBFENTZ2)")
  else
    let compLen := ofBeBytes ((bytes.drop 8).take 8).reverse
    if bytes.length < 16 + compLen then
      .error (corrupt "Truncated MbfEntityWireSnapshot LZ4 stream")
    else
      match WireFormats.decompress ((bytes.drop 16).take compLen) with
      | .error e => .error (corrupt ("MbfEntityWireSnapshot LZ4 error: " ++ e))
      | .ok raw => (readRaw (bytes.take 8 = magic) raw).map Prod.fst

/-- The lengths, counts and integers of a snapshot fit the fields that hold them. -/
structure FieldsFit (snap : MbfEntityWireSnapshot) : Prop where
  tenantId : (utf8 snap.tenantId).length < 2 ^ 32
  entityType : (utf8 snap.entityType).length < 2 ^ 32
  entityId : (utf8 snap.entityId).length < 2 ^ 32
  epochId : snap.epochId < 2 ^ 64
  count : snap.datoms.length < 2 ^ 32
  datoms : ∀ e ∈ snap.datoms, e.1.length < 2 ^ 32 ∧ e.2.entries.length < 2 ^ 16 ∧
    ∀ entry ∈ e.2.entries, FitsEntry entry

theorem reads_datom {pk : String} {e : List Byte × Item} (hsk : e.1.length < 2 ^ 32)
    (hcount : e.2.entries.length < 2 ^ 16) (hentries : ∀ entry ∈ e.2.entries, FitsEntry entry) :
    Reads (readDatom true pk) (writeDatom pk e) e :=
  (reads_bytesSlice hsk).bind
    ((reads_itemMapCompact ⟨pk, e.1⟩ hcount hentries).map fun item => (e.1, item))

variable {snap : MbfEntityWireSnapshot}

theorem FieldsFit.reads_raw (h : snap.FieldsFit) : Reads (readRaw true) snap.rawBytes snap := by
  have hepoch := h.epochId
  have hcount := h.count
  rw [rawBytes, Nat.mod_eq_of_lt hepoch, Nat.mod_eq_of_lt hcount]
  refine (reads_strBinary h.tenantId).bind ?_
  refine (reads_strBinary h.entityType).bind ?_
  refine (reads_strBinary h.entityId).bind ?_
  refine (reads_readLe _ (by simpa using hepoch)).bind ?_
  refine (reads_readLe _ (by simpa using hcount)).bind ?_
  refine (reads_readMany _ fun e he => ?_).map fun datoms =>
    (⟨snap.tenantId, snap.entityType, snap.entityId, snap.epochId, datoms⟩ : MbfEntityWireSnapshot)
  obtain ⟨hsk, hentries, hfits⟩ := h.datoms e he
  exact reads_datom hsk hentries hfits

theorem FieldsFit.decode_encode (h : snap.FieldsFit) (hstream : Streams snap.rawBytes) :
    decodeBinary snap.encodeBinary = .ok snap := by
  have hframe := framed_parts (show magic.length = 8 by decide) hstream.fits
  unfold decodeBinary encodeBinary
  dsimp only
  have hlength := hframe.long
  rw [if_neg (by omega), hframe.magic, if_neg (by simp), hframe.length, if_neg (by omega),
    hframe.stream, hstream.roundTrip]
  dsimp only
  rw [decide_eq_true rfl, h.reads_raw.whole]
  rfl

end Text
end MbfEntityWireSnapshot

/-- One row under the key of its item, and one that repeats the key and has an empty sort key. -/
def acmeSnapshot : MbfPartitionWireSnapshot where
  epochId := 7
  items :=
    [(⟨"T#acme#E#e1", [1, 2]⟩, (∅ : Item).insertList
        [("PK", .s "T#acme#E#e1"), ("SK", .b [1, 2]), ("v", .s "T#acme#V#red"), ("vp", .n "4")]),
      (⟨"T#acme#E#e1", []⟩, (∅ : Item).insertList
        [("PK", .s "another"), ("SK", .s ""), ("color", .null true)])]
  quotaCounters := []
  quotaIdem := []

def acmeEntity : MbfEntityWireSnapshot where
  tenantId := "acme"
  entityType := "asset"
  entityId := "e1"
  epochId := 7
  datoms := [([65], (∅ : Item).insertList
    [("SK", .s "A"), ("v", .s "T#acme#A#name"), ("ok", .bool false)])]

/-- Both snapshots are read back as they were written: any order of the items, keys that
repeat or are empty, any sort key, and any attribute beside or in place of the key's own. -/
theorem wire_snapshots_round_trip [WireFormats] :
    (∀ snap : MbfPartitionWireSnapshot, snap.FieldsFit → Streams snap.rawBytes →
      MbfPartitionWireSnapshot.decodeBinary snap.encodeBinary = .ok snap) ∧
    (∀ snap : MbfEntityWireSnapshot, snap.FieldsFit → Streams snap.rawBytes →
      MbfEntityWireSnapshot.decodeBinary snap.encodeBinary = .ok snap) :=
  ⟨fun _ h hstream => h.decode_encode hstream, fun _ h hstream => h.decode_encode hstream⟩

/-- A snapshot whose rows repeat a key and carry values under their tenant's namespaces. -/
theorem acme_snapshots_round_trip :
    @MbfPartitionWireSnapshot.decodeBinary .stored
        (@MbfPartitionWireSnapshot.encodeBinary .stored acmeSnapshot) = .ok acmeSnapshot ∧
      @MbfEntityWireSnapshot.decodeBinary .stored
        (@MbfEntityWireSnapshot.encodeBinary .stored acmeEntity) = .ok acmeEntity := by
  let _ := WireFormats.stored
  have hrow : ∀ e ∈ acmeSnapshot.items, FitsRow e := by decide +kernel
  have hfit : ∀ e ∈ acmeEntity.datoms, e.1.length < 2 ^ 32 ∧ e.2.entries.length < 2 ^ 16 ∧
      ∀ entry ∈ e.2.entries, FitsEntry entry := by decide +kernel
  constructor
  · exact wire_snapshots_round_trip.1 acmeSnapshot
      ⟨by decide, by decide, hrow, by decide, by decide⟩ ⟨rfl, by decide +kernel⟩
  · exact wire_snapshots_round_trip.2 acmeEntity
      ⟨by decide +kernel, by decide +kernel, by decide +kernel, by decide, by decide, hfit⟩
      ⟨rfl, by decide +kernel⟩

end MetriEngine.Storage
