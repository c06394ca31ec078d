import MetriEngine.Search.HybridIndex

/-!
# The search corpus of a tenant

The registered texts of a tenant with the coordinates that wait for their other axis, and its
hybrid index. Each call takes the state to the next one; a call never fails.
-/
namespace MetriEngine.Search
open Foundation Eav

structure TenantFtsState where
  docs : List (String × String)
  docPositions : OrdMap String ℕ
  partialCoords : OrdMap String (Option F64 × Option F64)
  zone5b : MbfHybridSearchIndex
deriving DecidableEq

namespace TenantFtsState

def empty : TenantFtsState := ⟨[], ∅, ∅, .new⟩

/-- The text put behind what the corpus holds of the entity, and whether it was new there. -/
def addSegment (s : TenantFtsState) (entityId trimmed : String) : TenantFtsState × Bool :=
  match s.docPositions.lookup entityId with
  | some pos =>
    if ((s.docs[pos]?).map fun d => Text.contains d.2 trimmed) = some true then (s, false)
    else ({ s with docs := s.docs.modify pos fun d => (d.1, d.2 ++ " " ++ trimmed) }, true)
  | none =>
    ({ s with
      docs := s.docs ++ [(entityId, trimmed)]
      docPositions := s.docPositions.insert entityId s.docs.length }, true)

/-- The attributes whose text is the title of its document. -/
def isTitleAttr (attrName : Option String) : Bool :=
  attrName ∈ [some "name", some "title", some "label", some "full_name", some "username"]

def isMetadataTags (attrName : Option String) : Bool := attrName = some "metadata_tags"

def isChunkContent (attrName : Option String) : Bool := attrName = some "chunk_content"

/-- The attributes whose text is a code. -/
def isCodeAttr (attrName : Option String) : Bool :=
  isMetadataTags attrName || attrName ∈ [some "tag", some "code", some "serial_number",
    some "barcode_qr_code", some "functional_location_code", some "sku"]

def codeField (attrName : Option String) (trimmed : String) : String :=
  if isMetadataTags attrName then
    let canon := canonicalizeAlphanumericCode trimmed
    if canon = "" then trimmed else trimmed ++ " " ++ canon
  else if isCodeAttr attrName || attrName = none then canonicalizeAlphanumericCode trimmed
  else ""

def titleField (attrName : Option String) (trimmed : String) : String :=
  if isTitleAttr attrName || attrName = none then trimmed
  else if isChunkContent attrName then
    String.intercalate " " (((splitWhitespace trimmed).take 16).map String.ofList)
  else ""

/-- Both axes of an entity, where both are known. -/
def coordsOf (s : TenantFtsState) (entityId : String) : Option (F64 × F64) :=
  (s.partialCoords.lookup entityId).bind fun c => Option.map₂ Prod.mk c.1 c.2

section Scored
variable [HybridScores]

def registerFtsDocumentAttr (s : TenantFtsState) (entityId : String) (attrName : Option String)
    (text : String) : TenantFtsState :=
  let trimmed := Text.trim text
  if trimmed = "" then s
  else
    let added := s.addSegment entityId trimmed
    if added.2 || isTitleAttr attrName || isCodeAttr attrName || isChunkContent attrName then
      let zone := added.1.zone5b.indexDocument
        { entityId := entityId
          rowId := added.1.zone5b.nextRowId
          code := codeField attrName trimmed
          title := titleField attrName trimmed
          description := trimmed
          embedding := none
          coordinatesWgs84 := added.1.coordsOf entityId }
      { added.1 with
        zone5b := if isTitleAttr attrName then zone.setDocumentTitle entityId trimmed else zone }
    else added.1

/-- One document of `register_fts_documents_batch`; its row number is given here. -/
def registerBatched (s : TenantFtsState) (doc : IndexedEntityDocument) : TenantFtsState :=
  let trimmed := Text.trim doc.combinedText
  let s := if trimmed = "" then s else (s.addSegment doc.entityId trimmed).1
  let s := match doc.coordinatesWgs84 with
    | some c =>
      { s with partialCoords := s.partialCoords.insert doc.entityId (some c.1, some c.2) }
    | none => s
  { s with zone5b := s.zone5b.indexDocument { doc with rowId := s.zone5b.nextRowId } }

def registerFtsDocumentsBatch (s : TenantFtsState) (docs : List IndexedEntityDocument) :
    TenantFtsState :=
  docs.foldl registerBatched s

/-- The document made for an entity that has none yet when a place or a vector arrives. -/
def bareDocument (s : TenantFtsState) (entityId : String) : IndexedEntityDocument :=
  { entityId := entityId
    rowId := s.zone5b.nextRowId
    code := entityId
    title := ""
    description := ""
    embedding := none
    coordinatesWgs84 := none }

def registerFtsEntityCoordinateAxis (s : TenantFtsState) (entityId : String) (isLatitude : Bool)
    (coordDeg : F64) : TenantFtsState :=
  if !isFinite coordDeg then s
  else
    let entry := (s.partialCoords.lookup entityId).getD (none, none)
    let entry := if isLatitude then (some coordDeg, entry.2) else (entry.1, some coordDeg)
    let s := { s with partialCoords := s.partialCoords.insert entityId entry }
    match Option.map₂ Prod.mk entry.1 entry.2 with
    | none => s
    | some c =>
      let placed := s.zone5b.setDocumentCoordinates entityId c
      if placed.2 then { s with zone5b := placed.1 }
      else { s with
        zone5b := placed.1.indexDocument
          { s.bareDocument entityId with coordinatesWgs84 := some c } }

def registerFtsEntityEmbedding (s : TenantFtsState) (entityId : String) (embedding : List F32) :
    TenantFtsState :=
  if embedding = [] then s
  else
    let placed := s.zone5b.setDocumentEmbedding entityId embedding
    if placed.2 then { s with zone5b := placed.1 }
    else { s with
      zone5b := placed.1.indexDocument { s.bareDocument entityId with embedding := some embedding } }

def registerTenantSynonymGroup (s : TenantFtsState) (group : List String) : TenantFtsState :=
  if group.length < 2 then s
  else { s with
    zone5b := { s.zone5b with
      thesaurus := s.zone5b.thesaurus.registerEquivalenceGroup group } }

omit [HybridScores] in
def removeFtsDocument (s : TenantFtsState) (entityId : String) : TenantFtsState :=
  let s := match s.docPositions.lookup entityId with
    | none => s
    | some pos =>
      let docs := s.docs.eraseIdx pos
      { s with
        docs := docs
        docPositions := (s.docPositions.erase entityId).insertList
          (placesFrom (docs.map Prod.fst) pos) }
  { s with
    partialCoords := s.partialCoords.erase entityId
    zone5b := s.zone5b.removeDocument entityId }

end Scored
end TenantFtsState

/-- A call on the search index of a tenant. -/
inductive FtsCall where
  | documentAttr (entityId : String) (attrName : Option String) (text : String)
  | documentsBatch (docs : List IndexedEntityDocument)
  | coordinateAxis (entityId : String) (isLatitude : Bool) (coordDeg : F64)
  | embedding (entityId : String) (vector : List F32)
  | synonymGroup (group : List String)
  | remove (entityId : String)
deriving DecidableEq

variable [HybridScores]

def ftsStep (s : TenantFtsState) : FtsCall → TenantFtsState
  | .documentAttr entityId attrName text => s.registerFtsDocumentAttr entityId attrName text
  | .documentsBatch docs => s.registerFtsDocumentsBatch docs
  | .coordinateAxis entityId isLatitude coordDeg =>
    s.registerFtsEntityCoordinateAxis entityId isLatitude coordDeg
  | .embedding entityId vector => s.registerFtsEntityEmbedding entityId vector
  | .synonymGroup group => s.registerTenantSynonymGroup group
  | .remove entityId => s.removeFtsDocument entityId

/-- The state after a sequence of calls on an empty index. -/
def ftsRun (calls : List FtsCall) : TenantFtsState := calls.foldl ftsStep .empty

end MetriEngine.Search
