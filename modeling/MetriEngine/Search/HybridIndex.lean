import MetriEngine.Eav.Value
import MetriEngine.Foundation.Positions
import MetriEngine.Search.Postings
import MetriEngine.Search.Text
import Mathlib.Data.List.Sort

/-!
# The hybrid search index

The documents of one tenant with the maps that lead to them: the tokens of their texts, the
pieces and sounds of the tokens, the vectors and the cells of their places. Documents are
named in the maps by their row numbers and merged into the one their entity has.
-/
namespace MetriEngine.Search
open Foundation Eav

/-- The bits of an IEEE 754 single. -/
structure F32 where
  bits : BitVec 32
deriving DecidableEq

/-- `f64::is_finite` -/
def isFinite (d : F64) : Bool := d.exponent < 2047

structure IndexedEntityDocument where
  entityId : String
  rowId : ℕ
  code : String
  title : String
  description : String
  embedding : Option (List F32)
  coordinatesWgs84 : Option (F64 × F64)
deriving DecidableEq

namespace IndexedEntityDocument

def combinedText (d : IndexedEntityDocument) : String := d.code ++ " " ++ d.title ++ " " ++ d.description

/-- The tokens of the texts of a document. -/
def tokens (d : IndexedEntityDocument) : List String := tokenizeNormalized d.combinedText

theorem tokens_eq (d : IndexedEntityDocument) :
    d.tokens = tokenizeNormalized d.code ++ tokenizeNormalized d.title ++
      tokenizeNormalized d.description := by
  rw [tokens, combinedText, tokenizeNormalized_append, tokenizeNormalized_append]

/-- What is indexed for a document: its tokens, and its code read as one. -/
def indexTokens (d : IndexedEntityDocument) : List String :=
  let canonCode := toAsciiLowercase (canonicalizeAlphanumericCode d.code)
  if 3 ≤ canonCode.utf8ByteSize ∧ canonCode ∉ d.tokens then d.tokens ++ [canonCode] else d.tokens

theorem tokens_subset (d : IndexedEntityDocument) : d.tokens ⊆ d.indexTokens := by
  unfold indexTokens
  dsimp only
  split_ifs
  · exact List.subset_append_left _ _
  · exact List.Subset.refl _

end IndexedEntityDocument

/-- Groups of terms that stand for each other. -/
structure SynonymThesaurus where
  equivalences : OrdMap String (List String)
deriving DecidableEq

namespace SynonymThesaurus

def registerEquivalenceGroup (th : SynonymThesaurus) (group : List String) : SynonymThesaurus :=
  let normalized := (group.map stripAccentsAndLower).filter fun w => w ≠ ""
  ⟨normalized.foldl (fun m term =>
    m.insert term (normalized.foldl (fun entry other =>
      if other ∈ entry then entry else entry ++ [other]) ((m.lookup term).getD []))) th.equivalences⟩

def expand (th : SynonymThesaurus) (token : String) : List String :=
  (th.equivalences.lookup (stripAccentsAndLower token)).getD []

end SynonymThesaurus

/-- The index; under a row of `rabitqVectors` is the vector whose quantisation is kept. -/
structure MbfHybridSearchIndex where
  docs : List IndexedEntityDocument
  fstLexicon : Postings String
  symspellDeletes : OrdMap String (List String)
  ngramBitmaps : Postings String
  phoneticIndex : Postings String
  thesaurus : SynonymThesaurus
  rabitqVectors : OrdMap ℕ (List F32)
  spatialMortonCells : Postings ℕ
  entityPositions : OrdMap String ℕ
  tokenKeysCache : OrdMap String (List String × List String)
deriving DecidableEq

structure HybridSearchHit where
  entityId : String
  rowId : ℕ
deriving DecidableEq

/-- The arithmetic on floating point numbers: the cell of a place, whether a queried vector
comes close enough to a quantised one and to its exact document vector, and which of two hits
has the better score. -/
class HybridScores where
  encodeSpatialCellH3Morton : F64 → F64 → ℕ
  similar : List F32 → List F32 → List F32 → Bool
  precedes : MbfHybridSearchIndex → List String → Option (List F32) →
    HybridSearchHit → HybridSearchHit → Bool

namespace MbfHybridSearchIndex

def new : MbfHybridSearchIndex := ⟨[], ∅, ∅, ∅, ∅, ⟨∅⟩, ∅, ∅, ∅, ∅⟩

def entityIds (s : MbfHybridSearchIndex) : List String := s.docs.map IndexedEntityDocument.entityId

def rowIds (s : MbfHybridSearchIndex) : List ℕ := s.docs.map IndexedEntityDocument.rowId

/-- The row number given to the next document, `docs.len() as u32`. -/
def nextRowId (s : MbfHybridSearchIndex) : ℕ := s.docs.length % 2 ^ 32

/-! ### Registration -/

def ensureFastLookupCache (s : MbfHybridSearchIndex) : MbfHybridSearchIndex :=
  if s.entityPositions.entries.length ≠ s.docs.length then
    { s with entityPositions := (∅ : OrdMap String ℕ).insertList (placesFrom s.entityIds 0) }
  else s

/-- The keys under which the sounds of a token are filed. -/
def phoneticKeys (token : String) : List String :=
  let ph := encodeRomancePhonetic token
  let dm := encodeDoubleMetaphone token
  [dm.1, dm.2].foldl (fun keys d => if d ≠ "" ∧ d ∉ keys then keys ++ [d] else keys)
    (if ph ≠ "" then [ph] else [])

/-- The rest of `index_token`, for a token whose keys are not remembered. -/
def indexTokenKeys (s : MbfHybridSearchIndex) (token : String) (rowId : ℕ) : MbfHybridSearchIndex :=
  let ngrams := generateNgrams token
  let phonetics := phoneticKeys token
  { s with
    fstLexicon := s.fstLexicon.post token rowId
    symspellDeletes := (generateSymspellDeletes token (if 16 < token.utf8ByteSize then 1 else 2)).foldl
      (fun m variant =>
        let terms := (m.lookup variant).getD []
        m.insert variant (if token ∈ terms then terms else terms ++ [token])) s.symspellDeletes
    ngramBitmaps := ngrams.foldl (fun m ng => m.post ng rowId) s.ngramBitmaps
    phoneticIndex := phonetics.foldl (fun m ph => m.post ph rowId) s.phoneticIndex
    tokenKeysCache := s.tokenKeysCache.insert token (ngrams, phonetics) }

def indexToken (s : MbfHybridSearchIndex) (rowId : ℕ) (token : String) : MbfHybridSearchIndex :=
  match s.fstLexicon.lookup token with
  | some entry =>
    if (pushUniqueRowId entry rowId).2 = false then s
    else
      let pushed := { s with fstLexicon := s.fstLexicon.post token rowId }
      match s.tokenKeysCache.lookup token with
      | some keys =>
        { pushed with
          ngramBitmaps := keys.1.foldl (fun m ng => m.postKnown ng rowId) s.ngramBitmaps
          phoneticIndex := keys.2.foldl (fun m ph => m.postKnown ph rowId) s.phoneticIndex }
      | none => pushed.indexTokenKeys token rowId
  | none => s.indexTokenKeys token rowId

/-- Text appended behind a blank, unless it is there already. -/
def appendSegment (existing incoming : String) : String :=
  if Text.contains existing incoming then existing
  else if existing = "" then incoming else existing ++ " " ++ incoming

def mergeExistingDocument (existing incoming : IndexedEntityDocument) : IndexedEntityDocument :=
  { existing with
    code :=
      if incoming.code = "" then existing.code
      else if Text.contains existing.code incoming.code then existing.code
      else if existing.code = "" ∨ existing.code = existing.entityId then incoming.code
      else existing.code ++ " " ++ incoming.code
    title :=
      let incomingHasSpaces := Text.contains incoming.title " "
      let existingHasSpaces := Text.contains existing.title " "
      if incoming.title = "" then existing.title
      else if existing.title = "" ∨ (incomingHasSpaces ∧ ¬existingHasSpaces) ∨
          (incomingHasSpaces = existingHasSpaces ∧
            existing.title.utf8ByteSize < incoming.title.utf8ByteSize) then incoming.title
      else existing.title
    description :=
      if incoming.description = "" then existing.description
      else appendSegment existing.description incoming.description
    embedding := if incoming.embedding.isSome then incoming.embedding else existing.embedding
    coordinatesWgs84 :=
      if incoming.coordinatesWgs84.isSome then incoming.coordinatesWgs84
      else existing.coordinatesWgs84 }

section Scored
variable [HybridScores]

/-- A place filed under its cell. -/
def fileCoordinates (s : MbfHybridSearchIndex) (rowId : ℕ) (coords : Option (F64 × F64)) :
    MbfHybridSearchIndex :=
  match coords with
  | none => s
  | some c =>
    { s with
      spatialMortonCells :=
        s.spatialMortonCells.post (HybridScores.encodeSpatialCellH3Morton c.1 c.2) rowId }

def fileEmbedding (s : MbfHybridSearchIndex) (rowId : ℕ) (embedding : Option (List F32)) :
    MbfHybridSearchIndex :=
  match embedding with
  | none => s
  | some e => { s with rabitqVectors := s.rabitqVectors.insert rowId e }

/-- The row under which a document is filed: that of the document its entity has. -/
def rowFor (s : MbfHybridSearchIndex) (doc : IndexedEntityDocument) : ℕ :=
  match s.entityPositions.lookup doc.entityId with
  | none => doc.rowId
  | some pos => (s.docs[pos]?.map IndexedEntityDocument.rowId).getD doc.rowId

/-- The document put in its place: merged into the one its entity has, or at the end. -/
def storeDocument (s : MbfHybridSearchIndex) (doc : IndexedEntityDocument) :
    MbfHybridSearchIndex :=
  match s.entityPositions.lookup doc.entityId with
  | some pos =>
    { s with docs := s.docs.modify pos fun existing => mergeExistingDocument existing doc }
  | none =>
    { s with
      docs := s.docs ++ [doc]
      entityPositions := s.entityPositions.insert doc.entityId s.docs.length }

def indexDocument (s : MbfHybridSearchIndex) (doc : IndexedEntityDocument) :
    MbfHybridSearchIndex :=
  let s := s.ensureFastLookupCache
  let rowId := s.rowFor doc
  let indexed := doc.indexTokens.foldl (fun t token => t.indexToken rowId token) s
  ((indexed.fileEmbedding rowId doc.embedding).fileCoordinates rowId
    doc.coordinatesWgs84).storeDocument doc

def setDocumentTitle (s : MbfHybridSearchIndex) (entityId title : String) : MbfHybridSearchIndex :=
  let s := s.ensureFastLookupCache
  match s.entityPositions.lookup entityId with
  | none => s
  | some pos => { s with docs := s.docs.modify pos fun d => { d with title := title } }

/-- `set_document_coordinates`, with `false` where no document was there to take them. -/
def setDocumentCoordinates (s : MbfHybridSearchIndex) (entityId : String) (coords : F64 × F64) :
    MbfHybridSearchIndex × Bool :=
  let s := s.ensureFastLookupCache
  match (s.entityPositions.lookup entityId).bind fun pos => (s.docs[pos]?).map fun d => (pos, d) with
  | none => (s, false)
  | some (pos, doc) =>
    (({ s with docs := s.docs.modify pos fun d => { d with coordinatesWgs84 := some coords } } :
      MbfHybridSearchIndex).fileCoordinates doc.rowId (some coords), true)

def setDocumentEmbedding (s : MbfHybridSearchIndex) (entityId : String) (embedding : List F32) :
    MbfHybridSearchIndex × Bool :=
  let s := s.ensureFastLookupCache
  match (s.entityPositions.lookup entityId).bind fun pos => (s.docs[pos]?).map fun d => (pos, d) with
  | none => (s, false)
  | some (pos, doc) =>
    (({ s with docs := s.docs.modify pos fun d => { d with embedding := some embedding } } :
      MbfHybridSearchIndex).fileEmbedding doc.rowId (some embedding), true)

def removeDocument (s : MbfHybridSearchIndex) (entityId : String) : MbfHybridSearchIndex :=
  let s := s.ensureFastLookupCache
  match s.entityPositions.lookup entityId with
  | none => s
  | some pos =>
    match s.docs[pos]? with
    | none => { s with entityPositions := s.entityPositions.erase entityId }
    | some removed =>
      let docs := s.docs.eraseIdx pos
      { s with
        docs := docs
        entityPositions := (s.entityPositions.erase entityId).insertList
          (placesFrom (docs.map IndexedEntityDocument.entityId) pos)
        rabitqVectors := s.rabitqVectors.erase removed.rowId
        fstLexicon := s.fstLexicon.retain removed.rowId
        ngramBitmaps := s.ngramBitmaps.retain removed.rowId
        phoneticIndex := s.phoneticIndex.retain removed.rowId
        spatialMortonCells := s.spatialMortonCells.retain removed.rowId }

/-! ### Search -/

/-- The tokens of a query, its code read as one, and the synonyms of both. -/
def queryTokens (s : MbfHybridSearchIndex) (queryText : String) : List String :=
  let tokens := tokenizeNormalized queryText
  let canonQ := toAsciiLowercase (canonicalizeAlphanumericCode queryText)
  let base := if 3 ≤ canonQ.utf8ByteSize ∧ canonQ ∉ tokens then tokens ++ [canonQ] else tokens
  base.foldl (fun acc tok => (s.thesaurus.expand tok).foldl (fun acc syn =>
    if syn ∈ acc then acc else acc ++ [syn]) acc) base

/-- The terms within two edits of a token, by deletions and by the whole lexicon. -/
def matchedCanonicals (s : MbfHybridSearchIndex) (qTok : String) : List String :=
  ((generateSymspellDeletes qTok 2).flatMap fun d => (s.symspellDeletes.lookup d).getD []) ++
    s.fstLexicon.entries.map Prod.fst |>.filter fun c => automatonAccepts qTok 2 c

/-- The rows that hold enough of the pieces of a token, `overlap >= 0.35`. -/
def overlappingRows (s : MbfHybridSearchIndex) (qTok : String) : List ℕ :=
  let qNgrams := generateNgrams qTok
  let counted := qNgrams.flatMap s.ngramBitmaps.rows
  counted.dedup.filter fun r => 7 * qNgrams.length ≤ 20 * counted.count r

/-- The rows that a token finds; each adds to the bonus of the row. -/
def tokenRows (s : MbfHybridSearchIndex) (qTok : String) : List ℕ :=
  s.fstLexicon.rows qTok ++ (s.matchedCanonicals qTok).flatMap s.fstLexicon.rows ++
    s.phoneticIndex.rows (encodeRomancePhonetic qTok) ++
    s.phoneticIndex.rows (encodeDoubleMetaphone qTok).1 ++ s.overlappingRows qTok

/-- The document of a row: at its number when it stands there, else the first that has it. -/
def documentOf (s : MbfHybridSearchIndex) (rowId : ℕ) : Option IndexedEntityDocument :=
  (s.docs[rowId]?.filter fun d => d.rowId = rowId).or (s.docs.find? fun d => d.rowId = rowId)

/-- `compute_bm25f_score(..) != 0.0`: some token of the query stands in a text of the document. -/
def lexicalMatch (doc : IndexedEntityDocument) (queryTokens : List String) : Bool :=
  queryTokens.any fun q =>
    Text.contains (stripAccentsAndLower doc.code) q ||
      Text.contains (stripAccentsAndLower doc.title) q ||
      Text.contains (stripAccentsAndLower doc.description) q

/-- `vec_sim >= 0.65` -/
def vectorMatch (s : MbfHybridSearchIndex) (rowId : ℕ) (doc : IndexedEntityDocument)
    (queryVector : Option (List F32)) : Bool :=
  match queryVector, s.rabitqVectors.lookup rowId, doc.embedding with
  | some q, some quantised, some exact =>
    q.length = exact.length && HybridScores.similar q quantised exact
  | _, _, _ => false

/-- The hit of a candidate row, when it has a document and anything speaks for it. -/
def hitOf (s : MbfHybridSearchIndex) (queryTokens : List String) (textual : List ℕ)
    (queryVector : Option (List F32)) (rowId : ℕ) : Option HybridSearchHit :=
  (s.documentOf rowId).bind fun doc =>
    if queryTokens ≠ [] ∧ lexicalMatch doc queryTokens = false ∧ rowId ∉ textual ∧
        s.vectorMatch rowId doc queryVector = false then none
    else some ⟨doc.entityId, rowId⟩

def hits (s : MbfHybridSearchIndex) (queryText : String) (queryVector : Option (List F32)) :
    List HybridSearchHit :=
  let queryTokens := s.queryTokens queryText
  let textual := queryTokens.flatMap s.tokenRows
  let vectorial := if queryVector.isSome then s.rabitqVectors.entries.map Prod.fst else []
  (textual ++ vectorial).dedup.filterMap (s.hitOf queryTokens textual queryVector)

def searchHybrid (s : MbfHybridSearchIndex) (queryText : String)
    (queryVector : Option (List F32)) (topK : ℕ) : List HybridSearchHit :=
  ((s.hits queryText queryVector).insertionSort fun a b =>
    HybridScores.precedes s (s.queryTokens queryText) queryVector a b = true).take topK

end Scored
end MbfHybridSearchIndex
end MetriEngine.Search
