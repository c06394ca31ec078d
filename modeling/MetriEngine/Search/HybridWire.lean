import MetriEngine.Search.RowIdentity
import MetriEngine.Storage.Wire

/-!
# The search zone as bytes

The zone is written with its documents and its lexicon, and read back from the documents alone:
each is registered again, and the lexicon is what their texts give. So a zone is read back with
the rows that it was written with where its lexicon holds what the texts of its documents give
now, whatever they were registered with.
-/
namespace MetriEngine.Search
open Foundation Storage Eav

/-! ### Documents -/

/-- `write_len_prefixed_str` -/
def writeLenPrefixedStr (s : String) : List Byte := leBytes 4 ((utf8 s).length % 2 ^ 32) ++ utf8 s

def writeF64 (d : F64) : List Byte := leBytes 8 d.bits.toNat

def writeF32 (d : F32) : List Byte := leBytes 4 d.bits.toNat

def writeEmbedding : Option (List F32) → List Byte
  | some emb => 1 :: (leBytes 4 (emb.length % 2 ^ 32) ++ emb.flatMap writeF32)
  | none => [0]

def writeCoordinates : Option (F64 × F64) → List Byte
  | some (lat, lon) => 1 :: (writeF64 lat ++ writeF64 lon)
  | none => [0]

def writeDocument (d : IndexedEntityDocument) : List Byte :=
  writeLenPrefixedStr d.entityId ++ (leBytes 4 (d.rowId % 2 ^ 32) ++ (writeLenPrefixedStr d.code ++
    (writeLenPrefixedStr d.title ++ (writeLenPrefixedStr d.description ++
      (writeEmbedding d.embedding ++ writeCoordinates d.coordinatesWgs84)))))

def readF64 (err : DomainError) : MbfReader F64 := (fun n => ⟨BitVec.ofNat 64 n⟩) <$> readLe 8 err

def readF32 (err : DomainError) : MbfReader F32 := (fun n => ⟨BitVec.ofNat 32 n⟩) <$> readLe 4 err

def readEmbedding : MbfReader (Option (List F32)) := do
  let hasEmb ← takeByte (corrupt "Truncated Zone 5B embedding flag")
  if hasEmb = 1 then
    let dim ← readLe 4 (corrupt "Truncated Zone 5B embedding len")
    some <$> readMany (readF32 (corrupt "Truncated Zone 5B embedding floats")) dim
  else return none

def readCoordinates : MbfReader (Option (F64 × F64)) := do
  let hasCoords ← takeByte (corrupt "Truncated Zone 5B coordinates flag")
  if hasCoords = 1 then
    let lat ← readF64 (corrupt "Truncated Zone 5B WGS84 coordinates")
    let lon ← readF64 (corrupt "Truncated Zone 5B WGS84 coordinates")
    return some (lat, lon)
  else return none

section Formats
variable [WireFormats]

/-- `read_len_prefixed_str` -/
def readLenPrefixedStr : MbfReader String := do
  let len ← readLe 4 (corrupt "Unexpected EOF reading length-prefixed string header")
  WireFormats.fromUtf8Lossy <$>
    takeBytes len (corrupt "Unexpected EOF reading length-prefixed string body")

def readDocument : MbfReader IndexedEntityDocument := do
  let entityId ← readLenPrefixedStr
  let rowId ← readLe 4 (corrupt "Truncated Zone 5B row_id")
  let code ← readLenPrefixedStr
  let title ← readLenPrefixedStr
  let description ← readLenPrefixedStr
  let embedding ← readEmbedding
  let coordinatesWgs84 ← readCoordinates
  return { entityId, rowId, code, title, description, embedding, coordinatesWgs84 }

theorem reads_lenPrefixedStr {s : String} (h : (utf8 s).length < 2 ^ 32) :
    Reads readLenPrefixedStr (writeLenPrefixedStr s) s := by
  have hbody := (reads_takeBytes (corrupt "Unexpected EOF reading length-prefixed string body")
    (rfl : (utf8 s).length = _)).map WireFormats.fromUtf8Lossy
  rw [WireFormats.fromUtf8Lossy_utf8] at hbody
  rw [writeLenPrefixedStr, Nat.mod_eq_of_lt h]
  exact (reads_readLe _ (by simpa using h)).bind hbody

end Formats

theorem reads_f64 (err : DomainError) (d : F64) : Reads (readF64 err) (writeF64 d) d := by
  have hread := (reads_readLe (n := 8) err d.bits.isLt).map fun n => (⟨BitVec.ofNat 64 n⟩ : F64)
  rwa [BitVec.ofNat_toNat, BitVec.setWidth_eq] at hread

theorem reads_f32 (err : DomainError) (d : F32) : Reads (readF32 err) (writeF32 d) d := by
  have hread := (reads_readLe (n := 4) err d.bits.isLt).map fun n => (⟨BitVec.ofNat 32 n⟩ : F32)
  rwa [BitVec.ofNat_toNat, BitVec.setWidth_eq] at hread

theorem reads_embedding {embedding : Option (List F32)}
    (h : ∀ emb ∈ embedding, emb.length < 2 ^ 32) :
    Reads readEmbedding (writeEmbedding embedding) embedding := by
  cases embedding with
  | none => exact (reads_takeByte _ 0).bind (Reads.pure none)
  | some emb =>
    have hlen := h emb rfl
    apply (reads_takeByte (corrupt "Truncated Zone 5B embedding flag") 1).bind
    rw [if_pos rfl, Nat.mod_eq_of_lt hlen]
    apply (reads_readLe _ (by simpa using hlen)).bind
    exact (reads_readMany emb fun d _ => reads_f32 _ d).map some

theorem reads_coordinates (coords : Option (F64 × F64)) :
    Reads readCoordinates (writeCoordinates coords) coords := by
  cases coords with
  | none => exact (reads_takeByte _ 0).bind (Reads.pure none)
  | some c =>
    apply (reads_takeByte (corrupt "Truncated Zone 5B coordinates flag") 1).bind
    rw [if_pos rfl]
    apply (reads_f64 _ c.1).bind
    have hlast := (reads_f64 (corrupt "Truncated Zone 5B WGS84 coordinates") c.2).map
      fun lon => some (c.1, lon)
    rwa [map_eq_pure_bind] at hlast

namespace IndexedEntityDocument

/-- The lengths and the row fit the four bytes that hold them. -/
structure Fits (d : IndexedEntityDocument) : Prop where
  entityId : (utf8 d.entityId).length < 2 ^ 32
  rowId : d.rowId < 2 ^ 32
  code : (utf8 d.code).length < 2 ^ 32
  title : (utf8 d.title).length < 2 ^ 32
  description : (utf8 d.description).length < 2 ^ 32
  embedding : ∀ emb ∈ d.embedding, emb.length < 2 ^ 32

end IndexedEntityDocument

theorem reads_document [WireFormats] {d : IndexedEntityDocument} (h : d.Fits) :
    Reads readDocument (writeDocument d) d := by
  rw [writeDocument, Nat.mod_eq_of_lt h.rowId]
  apply (reads_lenPrefixedStr h.entityId).bind
  apply (reads_readLe _ (by simpa using h.rowId)).bind
  apply (reads_lenPrefixedStr h.code).bind
  apply (reads_lenPrefixedStr h.title).bind
  apply (reads_lenPrefixedStr h.description).bind
  apply (reads_embedding h.embedding).bind
  have hlast := (reads_coordinates d.coordinatesWgs84).map fun coordinatesWgs84 =>
    { d with coordinatesWgs84 := coordinatesWgs84 }
  rwa [map_eq_pure_bind] at hlast

/-! ### The zone -/

def mbfZone5bMagic : List Byte := utf8 "MBFZ5BHS"

namespace MbfHybridSearchIndex

def writePostings (e : String × List ℕ) : List Byte :=
  writeLenPrefixedStr e.1 ++ leBytes 4 (e.2.length % 2 ^ 32) ++ e.2.flatMap (leBytes 4)

/-- The box around the places and the mean length of the texts come before the documents. -/
def encodeZoneBinary (s : MbfHybridSearchIndex) (spatialMbr : Fin 4 → F64) (avgDocLen : F64) :
    List Byte :=
  MbfPartitionWireSnapshot.padTo64 (mbfZone5bMagic ++ (leBytes 4 (s.docs.length % 2 ^ 32) ++
    (leBytes 4 (s.fstLexicon.entries.length % 2 ^ 32) ++
      ((List.ofFn spatialMbr).flatMap writeF64 ++ (writeF64 avgDocLen ++
        (s.docs.flatMap writeDocument ++ s.fstLexicon.entries.flatMap writePostings))))))

section Scored
variable [WireFormats] [HybridScores]

/-- The documents are registered in a new index; what follows them is not read. -/
def decodeZoneBinary (bytes : List Byte) : Except DomainError MbfHybridSearchIndex :=
  if bytes.length < 56 then
    .error (corrupt s!"Zone 5B buffer too small: {bytes.length} bytes")
  else if bytes.take 8 ≠ mbfZone5bMagic then
    .error (corrupt "Invalid Zone 5B magic (expected MBFZ5BHS)")
  else
    let docCount := ofBeBytes ((bytes.drop 8).take 4).reverse
    match readMany readDocument docCount (bytes.drop 56) with
    | .error e => .error e
    | .ok (docs, _) => .ok (docs.foldl indexDocument new)

/-- The documents can be written. -/
structure Fits (s : MbfHybridSearchIndex) : Prop where
  count : s.docs.length < 2 ^ 32
  docs : ∀ d ∈ s.docs, d.Fits

omit [WireFormats] [HybridScores] in
/-- The documents stand behind the 56 bytes of the head. -/
theorem encodeZoneBinary_parts (s : MbfHybridSearchIndex) (spatialMbr : Fin 4 → F64)
    (avgDocLen : F64) : ∃ summary rest : List Byte, summary.length = 44 ∧
      s.encodeZoneBinary spatialMbr avgDocLen =
        mbfZone5bMagic ++ (leBytes 4 (s.docs.length % 2 ^ 32) ++
          (summary ++ (s.docs.flatMap writeDocument ++ rest))) := by
  rw [encodeZoneBinary, MbfPartitionWireSnapshot.padTo64]
  generalize List.replicate _ (0 : Byte) = padding
  refine ⟨leBytes 4 (s.fstLexicon.entries.length % 2 ^ 32) ++
    ((List.ofFn spatialMbr).flatMap writeF64 ++ writeF64 avgDocLen),
    s.fstLexicon.entries.flatMap writePostings ++ padding, ?_, ?_⟩
  · simp [writeF64]
  · simp only [List.append_assoc]

theorem decodeZoneBinary_encodeZoneBinary {s : MbfHybridSearchIndex} (h : s.Fits)
    (spatialMbr : Fin 4 → F64) (avgDocLen : F64) :
    decodeZoneBinary (s.encodeZoneBinary spatialMbr avgDocLen) =
      .ok (s.docs.foldl indexDocument new) := by
  obtain ⟨summary, rest, hsummary, hbytes⟩ := s.encodeZoneBinary_parts spatialMbr avgDocLen
  have hmagic : mbfZone5bMagic.length = 8 := by decide
  have hread := reads_readMany s.docs (fun d hd => reads_document (h.docs d hd)) rest
  rw [hbytes, Nat.mod_eq_of_lt h.count]
  have hcount : (leBytes 4 s.docs.length).length = 4 := leBytes_length _ _
  have hdrop : (mbfZone5bMagic ++ (leBytes 4 s.docs.length ++
      (summary ++ (s.docs.flatMap writeDocument ++ rest)))).drop 8 =
      leBytes 4 s.docs.length ++ (summary ++ (s.docs.flatMap writeDocument ++ rest)) :=
    List.drop_left' hmagic
  have hdocs : (mbfZone5bMagic ++ (leBytes 4 s.docs.length ++
      (summary ++ (s.docs.flatMap writeDocument ++ rest)))).drop 56 =
      s.docs.flatMap writeDocument ++ rest := by
    rw [show 56 = 8 + (4 + 44) from rfl, ← List.drop_drop, hdrop, ← List.drop_drop,
      List.drop_left' hcount, List.drop_left' hsummary]
  have hlength : 56 ≤ (mbfZone5bMagic ++ (leBytes 4 s.docs.length ++
      (summary ++ (s.docs.flatMap writeDocument ++ rest)))).length := by
    simp only [List.length_append, hmagic, hcount, hsummary]
    omega
  unfold decodeZoneBinary
  rw [if_neg (by omega), List.take_left' hmagic, if_neg (by simp), hdocs, hdrop,
    List.take_left' hcount, leBytes, List.reverse_reverse,
    ofBeBytes_beBytes (by simpa using h.count)]
  dsimp only
  rw [hread]

end Scored

/-! ### Registration from nothing -/

section Filed
variable {s : MbfHybridSearchIndex} {rowId r : ℕ} {t : String}

theorem mem_rows_indexToken_iff (s : MbfHybridSearchIndex) (rowId r : ℕ) (token t : String) :
    r ∈ (s.indexToken rowId token).fstLexicon.rows t ↔
      r ∈ s.fstLexicon.rows t ∨ t = token ∧ r = rowId := by
  unfold indexToken
  cases hentry : s.fstLexicon.lookup token with
  | none =>
    dsimp only [indexTokenKeys]
    rw [Postings.mem_rows_post, or_comm]
  | some entry =>
    dsimp only
    split_ifs with hknown
    · have hrow : rowId ∈ s.fstLexicon.rows token := by
        rw [Postings.rows, hentry]
        exact mem_of_not_pushed hknown
      constructor
      · exact Or.inl
      · rintro (h | ⟨rfl, rfl⟩)
        · exact h
        · exact hrow
    · cases s.tokenKeysCache.lookup token with
      | none =>
        dsimp only [indexTokenKeys]
        rw [Postings.mem_rows_post, Postings.mem_rows_post]
        tauto
      | some keys =>
        dsimp only
        rw [Postings.mem_rows_post, or_comm]

theorem mem_rows_indexTokens_iff (s : MbfHybridSearchIndex) (tokens : List String) :
    r ∈ (tokens.foldl (fun s token => s.indexToken rowId token) s).fstLexicon.rows t ↔
      r ∈ s.fstLexicon.rows t ∨ r = rowId ∧ t ∈ tokens := by
  induction tokens generalizing s with
  | nil => simp
  | cons token tokens ih =>
    rw [List.foldl_cons, ih, mem_rows_indexToken_iff, List.mem_cons]
    tauto

variable [HybridScores]

theorem fstLexicon_fileDocument (s : MbfHybridSearchIndex) (rowId : ℕ) (doc : IndexedEntityDocument) :
    (s.fileDocument rowId doc).fstLexicon =
      (doc.indexTokens.foldl (fun s token => s.indexToken rowId token) s).fstLexicon := by
  have hembedding (s : MbfHybridSearchIndex) (embedding : Option (List F32)) :
      (s.fileEmbedding rowId embedding).fstLexicon = s.fstLexicon := by
    cases embedding <;> rfl
  have hcoordinates (s : MbfHybridSearchIndex) (coords : Option (F64 × F64)) :
      (s.fileCoordinates rowId coords).fstLexicon = s.fstLexicon := by
    cases coords <;> rfl
  rw [fileDocument, hcoordinates, hembedding]

theorem mem_rows_indexDocument_iff (h : s.WellKept) (doc : IndexedEntityDocument) :
    r ∈ (s.indexDocument doc).fstLexicon.rows t ↔
      r ∈ s.fstLexicon.rows t ∨ r = s.rowFor doc ∧ t ∈ doc.indexTokens := by
  have hstore (s : MbfHybridSearchIndex) : (s.storeDocument doc).fstLexicon = s.fstLexicon := by
    unfold storeDocument
    cases s.entityPositions.lookup doc.entityId <;> rfl
  rw [indexDocument_eq h, hstore, fstLexicon_fileDocument, mem_rows_indexTokens_iff]

theorem docs_indexDocument_of_new (h : s.WellKept) {doc : IndexedEntityDocument}
    (hnew : doc.entityId ∉ s.entityIds) : (s.indexDocument doc).docs = s.docs ++ [doc] := by
  rw [indexDocument_eq h, h.rowFor_of_new hnew,
    storeDocument_of_new h hnew (s.fileDocument_files _ doc)]

end Filed

/-- The lexicon holds the rows of the documents under the tokens of their texts, and no others. -/
def Settled (s : MbfHybridSearchIndex) : Prop :=
  ∀ t r, r ∈ s.fstLexicon.rows t ↔ ∃ d ∈ s.docs, d.rowId = r ∧ t ∈ d.indexTokens

theorem WellKept.new : WellKept new :=
  ⟨Tracks.empty, fun _ => List.Pairwise.nil, fun _ => List.Pairwise.nil,
    fun _ => List.Pairwise.nil, fun _ => List.Pairwise.nil⟩

theorem Settled.new : Settled new := by
  intro t r
  simp [MbfHybridSearchIndex.new]

section Scored
variable [HybridScores] {s : MbfHybridSearchIndex}

theorem Settled.indexDocument_of_new (h : s.Settled) (hkept : s.WellKept)
    {doc : IndexedEntityDocument} (hnew : doc.entityId ∉ s.entityIds) :
    (s.indexDocument doc).Settled := by
  intro t r
  rw [mem_rows_indexDocument_iff hkept, h t r, hkept.rowFor_of_new hnew,
    docs_indexDocument_of_new hkept hnew]
  constructor
  · rintro (⟨d, hd, hrow, ht⟩ | ⟨rfl, ht⟩)
    · exact ⟨d, List.mem_append_left _ hd, hrow, ht⟩
    · exact ⟨doc, by simp, rfl, ht⟩
  · rintro ⟨d, hd, rfl, ht⟩
    rcases List.mem_append.mp hd with hd | hd
    · exact Or.inl ⟨d, hd, rfl, ht⟩
    · rw [List.mem_singleton] at hd
      exact Or.inr ⟨by rw [hd], hd ▸ ht⟩

/-- Documents of different entities that are registered in a new index are its documents, and its
lexicon is settled. -/
theorem settled_foldl_indexDocument (docs : List IndexedEntityDocument)
    (hnodup : (docs.map IndexedEntityDocument.entityId).Nodup) :
    (docs.foldl indexDocument MbfHybridSearchIndex.new).WellKept ∧
      (docs.foldl indexDocument MbfHybridSearchIndex.new).docs = docs ∧
        (docs.foldl indexDocument MbfHybridSearchIndex.new).Settled := by
  induction docs using List.reverseRecOn with
  | nil => exact ⟨.new, rfl, .new⟩
  | append_singleton docs doc ih =>
    rw [List.map_append, List.map_singleton, List.nodup_append] at hnodup
    obtain ⟨hdocs, _, hapart⟩ := hnodup
    obtain ⟨hkept, hsame, hsettled⟩ := ih hdocs
    have hnew : doc.entityId ∉ (docs.foldl indexDocument MbfHybridSearchIndex.new).entityIds := by
      rw [entityIds, hsame]
      intro hmem
      exact hapart _ hmem _ (List.mem_singleton_self _) rfl
    rw [List.foldl_append, List.foldl_cons, List.foldl_nil]
    refine ⟨hkept.indexDocument doc, ?_, hsettled.indexDocument_of_new hkept hnew⟩
    rw [docs_indexDocument_of_new hkept hnew, hsame]

end Scored

/-! ### Calls -/

inductive ZoneCall
  | index (doc : IndexedEntityDocument)
  | setTitle (entityId title : String)
  | setCoordinates (entityId : String) (coords : F64 × F64)
  | setEmbedding (entityId : String) (embedding : List F32)
  | remove (entityId : String)
deriving DecidableEq

section Calls
variable [HybridScores] (s : MbfHybridSearchIndex)

def zoneStep : ZoneCall → MbfHybridSearchIndex
  | .index doc => s.indexDocument doc
  | .setTitle entityId title => s.setDocumentTitle entityId title
  | .setCoordinates entityId coords => (s.setDocumentCoordinates entityId coords).1
  | .setEmbedding entityId embedding => (s.setDocumentEmbedding entityId embedding).1
  | .remove entityId => s.removeDocument entityId

def zoneRun (calls : List ZoneCall) : MbfHybridSearchIndex := calls.foldl zoneStep new

omit [HybridScores] in
/-- A new entity comes under a row that no document has. -/
def FreshRow : ZoneCall → Prop
  | .index doc => doc.entityId ∈ s.entityIds ∨ doc.rowId ∉ s.rowIds
  | _ => True

instance : DecidablePred s.FreshRow
  | .index _ => inferInstanceAs (Decidable (_ ∨ _))
  | .setTitle _ _ | .setCoordinates _ _ | .setEmbedding _ _ | .remove _ =>
    inferInstanceAs (Decidable True)

omit [HybridScores] in
/-- The texts of the document keep their tokens: merged ones give the tokens of both, and a new
title those of the old one. -/
def KeepsTokens : ZoneCall → Prop
  | .index doc => ∀ d ∈ s.docs, d.entityId = doc.entityId →
      (mergeExistingDocument d doc).indexTokens.toFinset =
        (d.indexTokens ++ doc.indexTokens).toFinset
  | .setTitle entityId title => ∀ d ∈ s.docs, d.entityId = entityId →
      ({ d with title := title } : IndexedEntityDocument).indexTokens.toFinset =
        d.indexTokens.toFinset
  | _ => True

instance : DecidablePred s.KeepsTokens
  | .index _ | .setTitle _ _ => inferInstanceAs (Decidable (∀ d ∈ s.docs, _))
  | .setCoordinates _ _ | .setEmbedding _ _ | .remove _ => inferInstanceAs (Decidable True)

end Calls

/-! ### One call -/

theorem mem_modify_iff {α β : Type*} {g : α → β} {f : α → α} {l : List α} (h : (l.map g).Nodup)
    {i : ℕ} {a b : α} (hi : l[i]? = some a) :
    b ∈ l.modify i f ↔ b = f a ∨ b ∈ l ∧ g b ≠ g a := by
  rw [← mem_eraseIdx_iff h hi, List.mem_iff_getElem?, List.mem_eraseIdx_iff_getElem?]
  simp only [List.getElem?_modify]
  constructor
  · rintro ⟨j, hj⟩
    by_cases hij : i = j
    · subst hij
      rw [hi] at hj
      exact Or.inl (by simpa [eq_comm] using hj)
    · exact Or.inr ⟨j, Ne.symm hij, by simpa [hij] using hj⟩
  · rintro (rfl | ⟨j, hij, hj⟩)
    · exact ⟨i, by simp [hi]⟩
    · exact ⟨j, by simp [Ne.symm hij, hj]⟩

section Step
variable {s s' : MbfHybridSearchIndex} {d : IndexedEntityDocument} {pos : ℕ}

theorem eq_of_rowId (hnodup : s.rowIds.Nodup) {a b : IndexedEntityDocument} (ha : a ∈ s.docs)
    (hb : b ∈ s.docs) (hrow : a.rowId = b.rowId) : a = b := List.inj_on_of_nodup_map hnodup ha hb hrow

theorem Settled.rowId_mem_iff (h : s.Settled) (hnodup : s.rowIds.Nodup) (hd : d ∈ s.docs)
    (t : String) : d.rowId ∈ s.fstLexicon.rows t ↔ t ∈ d.indexTokens := by
  rw [h]
  constructor
  · rintro ⟨a, ha, hrow, ht⟩
    rwa [eq_of_rowId hnodup ha hd hrow] at ht
  · intro ht
    exact ⟨d, hd, rfl, ht⟩

/-- One document is changed in its place and its row filed under more tokens: the lexicon stays
settled where these are the tokens that the document has then. -/
theorem Settled.modify_iff (h : s.Settled) (hnodup : s.rowIds.Nodup) (hd : s.docs[pos]? = some d)
    {g : IndexedEntityDocument → IndexedEntityDocument} (hrow : (g d).rowId = d.rowId)
    (hdocs : s'.docs = s.docs.modify pos g) {w : List String}
    (hrows : ∀ t r, r ∈ s'.fstLexicon.rows t ↔ r ∈ s.fstLexicon.rows t ∨ r = d.rowId ∧ t ∈ w) :
    s'.Settled ↔ ∀ t, t ∈ (g d).indexTokens ↔ t ∈ d.indexTokens ∨ t ∈ w := by
  have hmem := List.mem_of_getElem? hd
  have hown (t : String) : d.rowId ∈ s'.fstLexicon.rows t ↔ t ∈ d.indexTokens ∨ t ∈ w := by
    rw [hrows, h.rowId_mem_iff hnodup hmem]
    simp
  have hfiled (t : String) (r : ℕ) : (∃ a ∈ s'.docs, a.rowId = r ∧ t ∈ a.indexTokens) ↔
      r = d.rowId ∧ t ∈ (g d).indexTokens ∨
        r ≠ d.rowId ∧ ∃ a ∈ s.docs, a.rowId = r ∧ t ∈ a.indexTokens := by
    simp only [hdocs, mem_modify_iff (f := g) hnodup hd]
    constructor
    · rintro ⟨a, rfl | ⟨ha, hne⟩, rfl, ht⟩
      · exact Or.inl ⟨hrow, ht⟩
      · exact Or.inr ⟨hne, a, ha, rfl, ht⟩
    · rintro (⟨rfl, ht⟩ | ⟨hne, a, ha, rfl, ht⟩)
      · exact ⟨g d, Or.inl rfl, hrow, ht⟩
      · exact ⟨a, Or.inr ⟨ha, hne⟩, rfl, ht⟩
  constructor
  · intro hs t
    rw [← hown t, hs t, hfiled]
    simp
  · intro ht t r
    rw [hfiled]
    by_cases hr : r = d.rowId
    · rw [hr, hown, ← ht t]
      simp
    · rw [hrows, h t r]
      simp [hr]

variable [HybridScores]

theorem Settled.indexDocument_iff (h : s.Settled) (hkept : s.WellKept) (hnodup : s.rowIds.Nodup)
    (doc : IndexedEntityDocument) :
    (s.indexDocument doc).Settled ↔ s.KeepsTokens (.index doc) := by
  cases hpos : s.entityPositions.lookup doc.entityId with
  | none =>
    have hnew := hkept.positions.lookup_eq_none.mp hpos
    constructor
    · intro _ d hd hid
      exact absurd (hid ▸ List.mem_map_of_mem hd) hnew
    · intro _
      exact h.indexDocument_of_new hkept hnew
  | some pos =>
    obtain ⟨d, hd, hid⟩ := hkept.document_at hpos
    have hmem := List.mem_of_getElem? hd
    have hdocs : (s.indexDocument doc).docs =
        s.docs.modify pos fun existing => mergeExistingDocument existing doc := by
      have hfiles := s.fileDocument_files (s.rowFor doc) doc
      rw [indexDocument_eq hkept]
      unfold storeDocument
      rw [hfiles.positions, hpos, hfiles.docs]
    rw [h.modify_iff hnodup hd (w := doc.indexTokens) rfl hdocs fun t r => by
      rw [mem_rows_indexDocument_iff hkept, rowFor_of_present hpos hd]]
    constructor
    · intro htokens a ha haid
      have hsame : a = d := List.inj_on_of_nodup_map hkept.positions.nodup ha hmem (haid.trans hid.symm)
      ext t
      rw [hsame, List.mem_toFinset, List.mem_toFinset, List.mem_append]
      exact htokens t
    · intro hkeeps t
      have htokens := Finset.ext_iff.mp (hkeeps d hmem hid) t
      rwa [List.mem_toFinset, List.mem_toFinset, List.mem_append] at htokens

omit [HybridScores] in
theorem Settled.setDocumentTitle_iff (h : s.Settled) (hkept : s.WellKept) (hnodup : s.rowIds.Nodup)
    (entityId title : String) :
    (s.setDocumentTitle entityId title).Settled ↔ s.KeepsTokens (.setTitle entityId title) := by
  unfold setDocumentTitle
  rw [hkept.ensureFastLookupCache_eq]
  dsimp only
  cases hpos : s.entityPositions.lookup entityId with
  | none =>
    have hnew := hkept.positions.lookup_eq_none.mp hpos
    refine ⟨fun _ d hd hid => ?_, fun _ => h⟩
    exact absurd (hid ▸ List.mem_map_of_mem hd) hnew
  | some pos =>
    obtain ⟨d, hd, hid⟩ := hkept.document_at hpos
    have hmem := List.mem_of_getElem? hd
    rw [h.modify_iff hnodup hd (g := fun d => { d with title := title }) (w := []) rfl rfl
      fun t r => by simp]
    constructor
    · intro htokens a ha haid
      have hsame : a = d := List.inj_on_of_nodup_map hkept.positions.nodup ha hmem (haid.trans hid.symm)
      ext t
      rw [hsame, List.mem_toFinset, List.mem_toFinset, htokens t]
      simp
    · intro hkeeps t
      have htokens := Finset.ext_iff.mp (hkeeps d hmem hid) t
      rw [List.mem_toFinset, List.mem_toFinset] at htokens
      simpa using htokens

omit [HybridScores] in
/-- A change that leaves the texts and the lexicon as they are. -/
theorem Settled.amended (h : s.Settled) (hnodup : s.rowIds.Nodup) (hd : s.docs[pos]? = some d)
    {g : IndexedEntityDocument → IndexedEntityDocument} (hrow : (g d).rowId = d.rowId)
    (htokens : (g d).indexTokens = d.indexTokens) (hdocs : s'.docs = s.docs.modify pos g)
    (hlexicon : s'.fstLexicon = s.fstLexicon) : s'.Settled := by
  apply (h.modify_iff hnodup hd (w := []) hrow hdocs fun t r => by simp [hlexicon]).mpr
  intro t
  simp [htokens]

theorem Settled.setDocumentCoordinates (h : s.Settled) (hkept : s.WellKept) (hnodup : s.rowIds.Nodup)
    (entityId : String) (coords : F64 × F64) :
    (s.setDocumentCoordinates entityId coords).1.Settled := by
  unfold MbfHybridSearchIndex.setDocumentCoordinates
  rw [hkept.ensureFastLookupCache_eq]
  dsimp only
  cases hpos : s.entityPositions.lookup entityId with
  | none => exact h
  | some pos =>
    obtain ⟨d, hd, _⟩ := hkept.document_at hpos
    rw [Option.bind_some, hd]
    exact h.amended hnodup hd (g := fun d => { d with coordinatesWgs84 := some coords }) rfl rfl rfl rfl

omit [HybridScores] in
theorem Settled.setDocumentEmbedding (h : s.Settled) (hkept : s.WellKept) (hnodup : s.rowIds.Nodup)
    (entityId : String) (embedding : List F32) :
    (s.setDocumentEmbedding entityId embedding).1.Settled := by
  unfold MbfHybridSearchIndex.setDocumentEmbedding
  rw [hkept.ensureFastLookupCache_eq]
  dsimp only
  cases hpos : s.entityPositions.lookup entityId with
  | none => exact h
  | some pos =>
    obtain ⟨d, hd, _⟩ := hkept.document_at hpos
    rw [Option.bind_some, hd]
    exact h.amended hnodup hd (g := fun d => { d with embedding := some embedding }) rfl rfl rfl rfl

omit [HybridScores] in
theorem Settled.removeDocument (h : s.Settled) (hkept : s.WellKept) (hnodup : s.rowIds.Nodup)
    (entityId : String) : (s.removeDocument entityId).Settled := by
  cases hpos : s.entityPositions.lookup entityId with
  | none =>
    rw [removeDocument_of_new hkept (hkept.positions.lookup_eq_none.mp hpos)]
    exact h
  | some pos =>
    obtain ⟨d, hd, _⟩ := hkept.document_at hpos
    rw [removeDocument_of_present hkept hpos hd]
    intro t r
    rw [Postings.mem_rows_retain, h t r]
    simp only [mem_eraseIdx_iff hnodup hd]
    constructor
    · rintro ⟨⟨a, ha, rfl, ht⟩, hne⟩
      exact ⟨a, ⟨ha, hne⟩, rfl, ht⟩
    · rintro ⟨a, ⟨ha, hne⟩, rfl, ht⟩
      exact ⟨⟨a, ha, rfl, ht⟩, hne⟩

/-- A call leaves the lexicon settled where the texts keep their tokens, and only there. -/
theorem Settled.zoneStep_iff (h : s.Settled) (hkept : s.WellKept) (hnodup : s.rowIds.Nodup)
    (call : ZoneCall) : (s.zoneStep call).Settled ↔ s.KeepsTokens call := by
  cases call with
  | index doc => exact h.indexDocument_iff hkept hnodup doc
  | setTitle entityId title => exact h.setDocumentTitle_iff hkept hnodup entityId title
  | setCoordinates entityId coords =>
    exact iff_of_true (h.setDocumentCoordinates hkept hnodup entityId coords) trivial
  | setEmbedding entityId embedding =>
    exact iff_of_true (h.setDocumentEmbedding hkept hnodup entityId embedding) trivial
  | remove entityId => exact iff_of_true (h.removeDocument hkept hnodup entityId) trivial

end Step

/-! ### What calls keep -/

section Kept
variable {s : MbfHybridSearchIndex}

theorem WellKept.setDocumentTitle (h : s.WellKept) (entityId title : String) :
    (s.setDocumentTitle entityId title).WellKept := by
  unfold MbfHybridSearchIndex.setDocumentTitle
  rw [h.ensureFastLookupCache_eq]
  dsimp only
  cases s.entityPositions.lookup entityId with
  | none => exact h
  | some pos =>
    refine ⟨?_, ⟨h.ascending.lexicon, h.ascending.ngrams, h.ascending.phonetics, h.ascending.cells⟩⟩
    unfold entityIds
    dsimp only
    rw [map_modify (g := IndexedEntityDocument.entityId)
      (f := fun d => { d with title := title }) fun _ => rfl]
    exact h.positions

theorem rowIds_setDocumentTitle (h : s.WellKept) (entityId title : String) :
    (s.setDocumentTitle entityId title).rowIds = s.rowIds := by
  unfold setDocumentTitle
  rw [h.ensureFastLookupCache_eq]
  dsimp only
  cases s.entityPositions.lookup entityId with
  | none => rfl
  | some pos =>
    unfold rowIds
    dsimp only
    rw [map_modify (g := IndexedEntityDocument.rowId)
      (f := fun d => { d with title := title }) fun _ => rfl]

theorem Amends.rowIds {s' : MbfHybridSearchIndex} (h : Amends s s') : s'.rowIds = s.rowIds := by
  rw [← directory_snd, h.directory, directory_snd]

variable [HybridScores]

theorem WellKept.zoneStep (h : s.WellKept) (call : ZoneCall) : (s.zoneStep call).WellKept := by
  cases call with
  | index doc => exact h.indexDocument doc
  | setTitle entityId title => exact h.setDocumentTitle entityId title
  | setCoordinates entityId coords => exact (setDocumentCoordinates_places h entityId coords).amends.kept h
  | setEmbedding entityId embedding =>
    exact (setDocumentEmbedding_places h entityId embedding).amends.kept h
  | remove entityId => exact h.removeDocument entityId

theorem nodup_rowIds_zoneStep (h : s.WellKept) (hnodup : s.rowIds.Nodup) {call : ZoneCall}
    (hfresh : s.FreshRow call) : (s.zoneStep call).rowIds.Nodup := by
  cases call with
  | index doc =>
    by_cases hmem : doc.entityId ∈ s.entityIds
    · rw [zoneStep, (indexDocument_amends h hmem).rowIds]
      exact hnodup
    · rw [zoneStep, rowIds, docs_indexDocument_of_new h hmem, List.map_append, List.map_singleton]
      apply List.nodup_append.mpr
      refine ⟨hnodup, List.nodup_singleton _, fun a ha b hb hab => ?_⟩
      rw [List.mem_singleton] at hb
      rw [hab, hb] at ha
      exact hfresh.resolve_left hmem ha
  | setTitle entityId title =>
    rw [zoneStep, rowIds_setDocumentTitle h]
    exact hnodup
  | setCoordinates entityId coords =>
    rw [zoneStep, (setDocumentCoordinates_places h entityId coords).amends.rowIds]
    exact hnodup
  | setEmbedding entityId embedding =>
    rw [zoneStep, (setDocumentEmbedding_places h entityId embedding).amends.rowIds]
    exact hnodup
  | remove entityId =>
    rw [zoneStep]
    cases hpos : s.entityPositions.lookup entityId with
    | none =>
      rw [removeDocument_of_new h (h.positions.lookup_eq_none.mp hpos)]
      exact hnodup
    | some pos =>
      obtain ⟨d, hd, _⟩ := h.document_at hpos
      rw [removeDocument_of_present h hpos hd]
      exact hnodup.sublist ((List.eraseIdx_sublist _ _).map _)

end Kept

/-! ### Runs -/

section Runs
variable [HybridScores]

/-- Each call of a run meets a condition in the state before it. -/
def Along (P : MbfHybridSearchIndex → ZoneCall → Prop) : MbfHybridSearchIndex → List ZoneCall → Prop
  | _, [] => True
  | s, call :: calls => P s call ∧ Along P (s.zoneStep call) calls

/-- A property of all states of a run, the first and the last among them. -/
def Throughout (P : MbfHybridSearchIndex → Prop) : MbfHybridSearchIndex → List ZoneCall → Prop
  | s, [] => P s
  | s, call :: calls => P s ∧ Throughout P (s.zoneStep call) calls

theorem Throughout.head {P : MbfHybridSearchIndex → Prop} {s : MbfHybridSearchIndex}
    {calls : List ZoneCall} (h : Throughout P s calls) : P s := by
  cases calls with
  | nil => exact h
  | cons call calls => exact h.1

theorem throughout_settled_iff {s : MbfHybridSearchIndex} {calls : List ZoneCall} (h : s.Settled)
    (hkept : s.WellKept) (hnodup : s.rowIds.Nodup) (hfresh : Along FreshRow s calls) :
    Throughout Settled s calls ↔ Along KeepsTokens s calls := by
  induction calls generalizing s with
  | nil => exact iff_of_true h trivial
  | cons call calls ih =>
    obtain ⟨hcall, hcalls⟩ := hfresh
    have hstep := h.zoneStep_iff hkept hnodup call
    constructor
    · rintro ⟨_, hrest⟩
      have hsettled := hrest.head
      exact ⟨hstep.mp hsettled, (ih hsettled (hkept.zoneStep call)
        (nodup_rowIds_zoneStep hkept hnodup hcall) hcalls).mp hrest⟩
    · rintro ⟨hkeeps, hrest⟩
      have hsettled := hstep.mpr hkeeps
      exact ⟨h, (ih hsettled (hkept.zoneStep call)
        (nodup_rowIds_zoneStep hkept hnodup hcall) hcalls).mpr hrest⟩

/-- The zone is read back from its bytes with its documents and with the rows that its lexicon
has under each token. -/
def RoundTrips [WireFormats] (s : MbfHybridSearchIndex) : Prop :=
  ∀ (spatialMbr : Fin 4 → F64) (avgDocLen : F64), ∃ s',
    decodeZoneBinary (s.encodeZoneBinary spatialMbr avgDocLen) = .ok s' ∧ s'.docs = s.docs ∧
      ∀ t r, r ∈ s'.fstLexicon.rows t ↔ r ∈ s.fstLexicon.rows t

variable [WireFormats]

theorem roundTrips_iff_settled {s : MbfHybridSearchIndex} (hfits : s.Fits) (hkept : s.WellKept) :
    s.RoundTrips ↔ s.Settled := by
  obtain ⟨_, hdocs, hsettled⟩ := settled_foldl_indexDocument s.docs hkept.positions.nodup
  constructor
  · intro h
    obtain ⟨s', hdecode, _, hrows⟩ := h (fun _ => ⟨0⟩) ⟨0⟩
    rw [decodeZoneBinary_encodeZoneBinary hfits] at hdecode
    cases hdecode
    intro t r
    rw [← hrows t r, hsettled t r, hdocs]
  · intro h spatialMbr avgDocLen
    refine ⟨_, decodeZoneBinary_encodeZoneBinary hfits spatialMbr avgDocLen, hdocs, fun t r => ?_⟩
    rw [hsettled t r, h t r, hdocs]

theorem throughout_roundTrips_iff {s : MbfHybridSearchIndex} {calls : List ZoneCall}
    (hkept : s.WellKept) (hfits : Throughout Fits s calls) :
    Throughout RoundTrips s calls ↔ Throughout Settled s calls := by
  induction calls generalizing s with
  | nil => exact roundTrips_iff_settled hfits hkept
  | cons call calls ih =>
    exact and_congr (roundTrips_iff_settled hfits.1 hkept) (ih (hkept.zoneStep call) hfits.2)

end Runs

/-- In a run whose documents can be written, the zone is read back in every state as it was
written where every call keeps the tokens of the texts, and only there. -/
theorem zone5b_roundTrips_iff [HybridScores] [WireFormats] {calls : List ZoneCall}
    (hfresh : Along FreshRow new calls) (hfits : Throughout Fits new calls) :
    Throughout RoundTrips new calls ↔ Along KeepsTokens new calls := by
  rw [throughout_roundTrips_iff .new hfits]
  exact throughout_settled_iff .new .new List.nodup_nil hfresh

/-! ### A lamp -/

instance (d : IndexedEntityDocument) : Decidable d.Fits :=
  decidable_of_iff ((utf8 d.entityId).length < 2 ^ 32 ∧ d.rowId < 2 ^ 32 ∧
      (utf8 d.code).length < 2 ^ 32 ∧ (utf8 d.title).length < 2 ^ 32 ∧
      (utf8 d.description).length < 2 ^ 32 ∧ ∀ emb ∈ d.embedding, emb.length < 2 ^ 32)
    ⟨fun ⟨h1, h2, h3, h4, h5, h6⟩ => ⟨h1, h2, h3, h4, h5, h6⟩,
      fun h => ⟨h.entityId, h.rowId, h.code, h.title, h.description, h.embedding⟩⟩

instance : DecidablePred Fits := fun s =>
  decidable_of_iff (s.docs.length < 2 ^ 32 ∧ ∀ d ∈ s.docs, d.Fits)
    ⟨fun h => ⟨h.1, h.2⟩, fun h => ⟨h.count, h.docs⟩⟩

section Runs
variable [HybridScores]

instance decidableAlong {P : MbfHybridSearchIndex → ZoneCall → Prop} [∀ s, DecidablePred (P s)]
    (s : MbfHybridSearchIndex) : (calls : List ZoneCall) → Decidable (Along P s calls)
  | [] => isTrue trivial
  | call :: calls =>
    have := decidableAlong (P := P) (s.zoneStep call) calls
    inferInstanceAs (Decidable (P s call ∧ Along P (s.zoneStep call) calls))

instance decidableThroughout {P : MbfHybridSearchIndex → Prop} [DecidablePred P]
    (s : MbfHybridSearchIndex) : (calls : List ZoneCall) → Decidable (Throughout P s calls)
  | [] => inferInstanceAs (Decidable (P s))
  | call :: calls =>
    have := decidableThroughout (P := P) (s.zoneStep call) calls
    inferInstanceAs (Decidable (P s ∧ Throughout P (s.zoneStep call) calls))

end Runs

def lamp : IndexedEntityDocument where
  entityId := "e"
  rowId := 7
  code := ""
  title := "red lamp"
  description := ""
  embedding := none
  coordinatesWgs84 := none

/-- A lamp that is described, is placed and goes. -/
def describedLamp : List ZoneCall :=
  [.index lamp, .index { lamp with description := "tall" }, .setCoordinates "e" (⟨0⟩, ⟨0⟩),
    .remove "e"]

theorem describedLamp_roundTrips :
    @Throughout TenantFtsState.evenScores (@RoundTrips TenantFtsState.evenScores .stored) new
      describedLamp := by
  have hkeeps : @Along TenantFtsState.evenScores KeepsTokens new describedLamp := by decide +kernel
  exact (@zone5b_roundTrips_iff TenantFtsState.evenScores .stored _ (by decide +kernel)
    (by decide +kernel)).mpr hkeeps

def renamedLamp : List ZoneCall := [.index lamp, .setTitle "e" "blue chair"]

/-- A title is changed in the document and not in the lexicon. -/
theorem renamedLamp_is_read_back_otherwise :
    @Along TenantFtsState.evenScores FreshRow new renamedLamp ∧
      @Throughout TenantFtsState.evenScores Fits new renamedLamp ∧
      ¬ @Throughout TenantFtsState.evenScores (@RoundTrips TenantFtsState.evenScores .stored) new
        renamedLamp := by
  have hfresh : @Along TenantFtsState.evenScores FreshRow new renamedLamp := by decide +kernel
  have hfits : @Throughout TenantFtsState.evenScores Fits new renamedLamp := by decide +kernel
  refine ⟨hfresh, hfits, fun h => ?_⟩
  have hkeeps := (@throughout_settled_iff TenantFtsState.evenScores _ _ .new .new List.nodup_nil
    hfresh).mp ((@throughout_roundTrips_iff TenantFtsState.evenScores .stored _ _ .new hfits).mp h)
  have hloses : ¬ @Along TenantFtsState.evenScores KeepsTokens new renamedLamp := by decide +kernel
  exact hloses hkeeps

end MbfHybridSearchIndex
end MetriEngine.Search
