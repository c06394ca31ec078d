import MetriEngine.Search.RowSearch

/-!
# Row identity of the search index

The number of a new document is the number of documents, and removals make that smaller. In a
run of calls the rows tell the documents apart, and a search finds them, exactly as long as no
call gives a new document a number that a present one has.
-/
namespace MetriEngine.Search
open Foundation Eav

namespace MbfHybridSearchIndex

/-- The index after some entities were registered, one after another. -/
structure Registers (s s' : MbfHybridSearchIndex) (entityIds : List String) : Prop where
  directory : s'.directory = entityIds.foldl (Roll.enrol (2 ^ 32)) s.directory
  kept : s'.WellKept
  sound : s.Sound → Roll.AllFresh (2 ^ 32) s.directory entityIds → s'.Sound

namespace Registers
variable {s s' s'' : MbfHybridSearchIndex}

theorem of_amends (h : s.WellKept) (ha : Amends s s') : Registers s s' [] :=
  ⟨ha.directory, ha.kept h, fun hs _ => ha.sound hs⟩

/-- An entity that has a document is registered already. -/
theorem of_known (h : s.WellKept) {entityId : String} (hmem : entityId ∈ s.entityIds)
    (ha : Amends s s') : Registers s s' [entityId] := by
  refine ⟨?_, ha.kept h, fun hs _ => ha.sound hs⟩
  rw [List.foldl_cons, Roll.enrol_of_mem (by rwa [directory_fst])]
  exact ha.directory

theorem trans {es es' : List String} (h : Registers s s' es) (h' : Registers s' s'' es') :
    Registers s s'' (es ++ es') where
  directory := by rw [List.foldl_append, ← h.directory, h'.directory]
  kept := h'.kept
  sound hs hfresh := by
    obtain ⟨hes, hes'⟩ := Roll.allFresh_append.mp hfresh
    rw [← h.directory] at hes'
    exact h'.sound (h.sound hs hes) hes'

theorem mem_entityIds {es : List String} (h : Registers s s' es) {e : String} :
    e ∈ s'.entityIds ↔ e ∈ s.entityIds ∨ e ∈ es := by
  rw [← directory_fst, h.directory, Roll.mem_foldl_enrol, directory_fst]

theorem indexDocument [HybridScores] (h : s.WellKept) {doc : IndexedEntityDocument}
    (hrow : doc.rowId = s.nextRowId) : Registers s (s.indexDocument doc) [doc.entityId] where
  directory := directory_indexDocument h hrow
  kept := h.indexDocument doc
  sound hs hfresh := hs.indexDocument h hrow hfresh.1

/-- A document that is numbered where it is registered. -/
theorem indexNumbered [HybridScores] (h : s.WellKept) (doc : IndexedEntityDocument) :
    Registers s (s.indexDocument { doc with rowId := s.nextRowId }) [doc.entityId] := by
  have hnumbered : ({ doc with rowId := s.nextRowId } : IndexedEntityDocument).rowId = s.nextRowId :=
    rfl
  exact indexDocument h hnumbered

end Registers
end MbfHybridSearchIndex

namespace TenantFtsState

/-- The texts of the corpus have their positions, and their entities have documents. -/
structure WellKept (s : TenantFtsState) : Prop where
  positions : Tracks (s.docs.map Prod.fst) s.docPositions
  known : ∀ e ∈ s.docs.map Prod.fst, e ∈ s.zone5b.entityIds
  zone : s.zone5b.WellKept

/-- The state after a call that registers some entities. -/
structure Registers (s s' : TenantFtsState) (entityIds : List String) : Prop where
  positions : Tracks (s'.docs.map Prod.fst) s'.docPositions
  only : ∀ e ∈ s'.docs.map Prod.fst, e ∈ s.docs.map Prod.fst ∨ e ∈ entityIds
  zone : s.zone5b.Registers s'.zone5b entityIds

namespace Registers
variable {s s' s'' : TenantFtsState}

theorem wellKept {es : List String} (h : Registers s s' es) (hkept : s.WellKept) : s'.WellKept := by
  refine ⟨h.positions, fun e he => ?_, h.zone.kept⟩
  exact h.zone.mem_entityIds.mpr ((h.only e he).imp_left (hkept.known e))

/-- The corpus stays as it is. -/
theorem of_zone {es : List String} (hkept : s.WellKept)
    (partialCoords : OrdMap String (Option F64 × Option F64)) {zone : MbfHybridSearchIndex}
    (h : s.zone5b.Registers zone es) :
    Registers s { s with partialCoords := partialCoords, zone5b := zone } es :=
  ⟨hkept.positions, fun _ he => Or.inl he, h⟩

theorem refl (hkept : s.WellKept) : Registers s s [] :=
  of_zone hkept s.partialCoords (.of_amends hkept.zone (.refl _))

theorem trans {es es' : List String} (h : Registers s s' es) (h' : Registers s' s'' es') :
    Registers s s'' (es ++ es') where
  positions := h'.positions
  only e he := by
    rw [List.mem_append]
    rcases h'.only e he with he | he
    · exact (h.only e he).imp_right Or.inl
    · exact Or.inr (Or.inr he)
  zone := h.zone.trans h'.zone

end Registers

/-! ### Calls -/

/-- What `addSegment` does to the corpus. -/
structure Adds (s s' : TenantFtsState) (entityId : String) : Prop where
  positions : Tracks (s'.docs.map Prod.fst) s'.docPositions
  only : ∀ e ∈ s'.docs.map Prod.fst, e ∈ s.docs.map Prod.fst ∨ e ∈ [entityId]
  zone : s'.zone5b = s.zone5b

/-- A call that adds to the corpus and registers the entity. -/
theorem Adds.registers {s added s' : TenantFtsState} {entityId : String}
    (h : Adds s added entityId) (hdocs : s'.docs = added.docs)
    (hpositions : s'.docPositions = added.docPositions)
    (hzone : s.zone5b.Registers s'.zone5b [entityId]) : Registers s s' [entityId] := by
  refine ⟨?_, ?_, hzone⟩
  · rw [hdocs, hpositions]
    exact h.positions
  · rw [hdocs]
    exact h.only

theorem addSegment_adds {s : TenantFtsState} (h : s.WellKept) (entityId trimmed : String) :
    Adds s (s.addSegment entityId trimmed).1 entityId := by
  unfold addSegment
  cases hpos : s.docPositions.lookup entityId with
  | none =>
    have hnew := h.positions.lookup_eq_none.mp hpos
    have hlength : s.docs.length = (s.docs.map Prod.fst).length := (List.length_map _).symm
    refine ⟨?_, fun e he => ?_, rfl⟩
    · dsimp only
      rw [List.map_append, hlength]
      exact h.positions.append hnew
    · dsimp only at he
      rwa [List.map_append, List.mem_append] at he
  | some pos =>
    dsimp only
    have hids : (s.docs.modify pos fun d => (d.1, d.2 ++ " " ++ trimmed)).map Prod.fst =
        s.docs.map Prod.fst :=
      map_modify (f := fun d : String × String => (d.1, d.2 ++ " " ++ trimmed)) (fun _ => rfl) _ _
    split_ifs
    · exact ⟨h.positions, fun e he => Or.inl he, rfl⟩
    · refine ⟨?_, fun e he => ?_, rfl⟩
      · dsimp only
        rw [hids]
        exact h.positions
      · dsimp only at he
        rw [hids] at he
        exact Or.inl he

/-- A text that is no new segment is one of an entity of the corpus. -/
theorem mem_of_not_added {s : TenantFtsState} (h : s.WellKept) {entityId trimmed : String}
    (hadded : (s.addSegment entityId trimmed).2 = false) : entityId ∈ s.docs.map Prod.fst := by
  unfold addSegment at hadded
  cases hpos : s.docPositions.lookup entityId with
  | none =>
    rw [hpos] at hadded
    cases hadded
  | some pos => exact List.mem_of_getElem? ((h.positions entityId pos).mp hpos)

section Scored
variable [HybridScores]

theorem registerFtsDocumentAttr_registers {s : TenantFtsState} (h : s.WellKept) (entityId : String)
    (attrName : Option String) (text : String) :
    Registers s (s.registerFtsDocumentAttr entityId attrName text)
      (if Text.trim text = "" then [] else [entityId]) := by
  unfold registerFtsDocumentAttr
  dsimp only
  split_ifs with htrim hindexed htitle
  · exact .refl h
  all_goals
    have hadds := addSegment_adds h entityId (Text.trim text)
    refine hadds.registers rfl rfl ?_
  · -- the title is among the texts that were indexed just before
    dsimp only
    rw [hadds.zone]
    refine (MbfHybridSearchIndex.Registers.indexDocument h.zone ?_).trans
      (.of_amends (h.zone.indexDocument _) (MbfHybridSearchIndex.setDocumentTitle_amends
        (h.zone.indexDocument _) fun pos d hpos hd t ht => ?_))
    · rfl
    · refine MbfHybridSearchIndex.mem_rows_indexDocument h.zone ?_ hpos hd
      rw [IndexedEntityDocument.mem_tokens]
      unfold titleField
      simp [htitle, ht]
  · dsimp only
    rw [hadds.zone]
    exact .indexDocument h.zone rfl
  · rw [hadds.zone]
    have hadded : (s.addSegment entityId (Text.trim text)).2 = false := by
      simp only [Bool.or_eq_true, not_or, Bool.not_eq_true] at hindexed
      exact hindexed.1.1.1
    exact .of_known h.zone (h.known _ (mem_of_not_added h hadded)) (.refl _)

theorem registerBatched_registers {s : TenantFtsState} (h : s.WellKept)
    (doc : IndexedEntityDocument) : Registers s (s.registerBatched doc) [doc.entityId] := by
  have hadds : Adds s (if Text.trim doc.combinedText = "" then s
      else (s.addSegment doc.entityId (Text.trim doc.combinedText)).1) doc.entityId := by
    split_ifs
    · exact ⟨h.positions, fun e he => Or.inl he, rfl⟩
    · exact addSegment_adds h doc.entityId _
  unfold registerBatched
  dsimp only
  generalize (if Text.trim doc.combinedText = "" then s
    else (s.addSegment doc.entityId (Text.trim doc.combinedText)).1) = added at hadds
  cases hcoords : doc.coordinatesWgs84 with
  | none =>
    dsimp only
    refine hadds.registers rfl rfl ?_
    rw [hadds.zone, ← hcoords]
    exact .indexNumbered h.zone doc
  | some c =>
    dsimp only
    refine hadds.registers rfl rfl ?_
    rw [hadds.zone, ← hcoords]
    exact .indexNumbered h.zone doc

theorem registerFtsDocumentsBatch_registers {s : TenantFtsState} (h : s.WellKept)
    (docs : List IndexedEntityDocument) :
    Registers s (s.registerFtsDocumentsBatch docs) (docs.map IndexedEntityDocument.entityId) := by
  induction docs generalizing s with
  | nil => exact .refl h
  | cons doc docs ih =>
    have hdoc := registerBatched_registers h doc
    exact hdoc.trans (ih (hdoc.wellKept h))

/-- What is placed where the entity has a document, and else in a new one. -/
theorem registers_placed {s : MbfHybridSearchIndex} (h : s.WellKept) {entityId : String}
    {placed : MbfHybridSearchIndex × Bool} (hplaces : s.Places entityId placed)
    (doc : IndexedEntityDocument) (hentity : doc.entityId = entityId)
    (hrow : doc.rowId = s.nextRowId) :
    s.Registers (if placed.2 then placed.1 else placed.1.indexDocument doc) [entityId] := by
  have hnext : placed.1.nextRowId = s.nextRowId := by
    rw [MbfHybridSearchIndex.nextRowId_eq, MbfHybridSearchIndex.nextRowId_eq,
      hplaces.amends.directory]
  split_ifs with hmade
  · exact .of_known h (hplaces.made hmade) hplaces.amends
  · have hamended := MbfHybridSearchIndex.Registers.of_amends h hplaces.amends
    exact hentity ▸ hamended.trans (.indexDocument hamended.kept (hrow.trans hnext.symm))

/-- Both axes are known when this one is. -/
def otherAxisKnown (s : TenantFtsState) (entityId : String) (isLatitude : Bool) : Bool :=
  let entry := (s.partialCoords.lookup entityId).getD (none, none)
  if isLatitude then entry.2.isSome else entry.1.isSome

theorem registerFtsEntityCoordinateAxis_registers {s : TenantFtsState} (h : s.WellKept)
    (entityId : String) (isLatitude : Bool) (coordDeg : F64) :
    Registers s (s.registerFtsEntityCoordinateAxis entityId isLatitude coordDeg)
      (if isFinite coordDeg && s.otherAxisKnown entityId isLatitude then [entityId] else []) := by
  have hunplaced := MbfHybridSearchIndex.Registers.of_amends h.zone (.refl s.zone5b)
  unfold registerFtsEntityCoordinateAxis otherAxisKnown
  dsimp only
  cases hfinite : isFinite coordDeg with
  | false => exact .refl h
  | true =>
    generalize hentry : (s.partialCoords.lookup entityId).getD (none, none) = entry
    rw [Bool.not_true, if_neg Bool.false_ne_true, Bool.true_and]
    cases hboth : Option.map₂ Prod.mk
        (if isLatitude then (some coordDeg, entry.2) else (entry.1, some coordDeg)).1
        (if isLatitude then (some coordDeg, entry.2) else (entry.1, some coordDeg)).2 with
    | none =>
      have hother : (if isLatitude then entry.2.isSome else entry.1.isSome) = false := by
        cases isLatitude <;> simpa [Option.map₂_eq_none_iff] using hboth
      rw [hother, if_neg Bool.false_ne_true]
      exact .of_zone h _ hunplaced
    | some c =>
      have hother : (if isLatitude then entry.2.isSome else entry.1.isSome) = true := by
        obtain ⟨lat, lon, hlat, hlon, _⟩ := Option.map₂_eq_some_iff.mp hboth
        cases isLatitude
        · exact Option.isSome_iff_exists.mpr ⟨lat, hlat⟩
        · exact Option.isSome_iff_exists.mpr ⟨lon, hlon⟩
      have hplaced := registers_placed h.zone
        (MbfHybridSearchIndex.setDocumentCoordinates_places h.zone entityId c)
        { s.bareDocument entityId with coordinatesWgs84 := some c } rfl rfl
      rw [hother, if_pos rfl]
      dsimp only
      cases hmade : (s.zone5b.setDocumentCoordinates entityId c).2 with
      | true =>
        rw [hmade, if_pos rfl] at hplaced
        rw [if_pos rfl]
        exact .of_zone h _ hplaced
      | false =>
        rw [hmade, if_neg Bool.false_ne_true] at hplaced
        rw [if_neg Bool.false_ne_true]
        exact .of_zone h _ hplaced

theorem registerFtsEntityEmbedding_registers {s : TenantFtsState} (h : s.WellKept)
    (entityId : String) (embedding : List F32) :
    Registers s (s.registerFtsEntityEmbedding entityId embedding)
      (if embedding = [] then [] else [entityId]) := by
  unfold registerFtsEntityEmbedding
  dsimp only
  split_ifs with hempty hmade
  · exact .refl h
  all_goals
    have hplaced := registers_placed h.zone
      (MbfHybridSearchIndex.setDocumentEmbedding_places h.zone entityId embedding)
      { s.bareDocument entityId with embedding := some embedding } rfl rfl
  · rw [if_pos hmade] at hplaced
    exact .of_zone h _ hplaced
  · rw [if_neg hmade] at hplaced
    exact .of_zone h _ hplaced

omit [HybridScores] in
theorem registerTenantSynonymGroup_registers {s : TenantFtsState} (h : s.WellKept)
    (group : List String) : Registers s (s.registerTenantSynonymGroup group) [] := by
  unfold registerTenantSynonymGroup
  split_ifs
  · exact .refl h
  · refine .of_zone h _ (.of_amends h.zone ⟨rfl, fun hk => ?_, fun hs => ?_⟩)
    · exact ⟨hk.positions, hk.ascending.lexicon, hk.ascending.ngrams, hk.ascending.phonetics,
        hk.ascending.cells⟩
    · exact ⟨hs.nodup, hs.present, hs.tokens⟩

end Scored

@[simp] theorem removeFtsDocument_zone5b (s : TenantFtsState) (entityId : String) :
    (s.removeFtsDocument entityId).zone5b = s.zone5b.removeDocument entityId := by
  unfold removeFtsDocument
  cases s.docPositions.lookup entityId with
  | none => rfl
  | some pos => rfl

theorem WellKept.removeFtsDocument {s : TenantFtsState} (h : s.WellKept) (entityId : String) :
    (s.removeFtsDocument entityId).WellKept := by
  suffices hcorpus : Tracks ((s.removeFtsDocument entityId).docs.map Prod.fst)
      (s.removeFtsDocument entityId).docPositions ∧
      ∀ e ∈ (s.removeFtsDocument entityId).docs.map Prod.fst,
        e ∈ s.docs.map Prod.fst ∧ e ≠ entityId by
    refine ⟨hcorpus.1, fun e he => ?_, ?_⟩
    · obtain ⟨hmem, hne⟩ := hcorpus.2 e he
      rw [removeFtsDocument_zone5b]
      exact (MbfHybridSearchIndex.mem_entityIds_removeDocument h.zone).mpr ⟨h.known e hmem, hne⟩
    · rw [removeFtsDocument_zone5b]
      exact h.zone.removeDocument entityId
  unfold TenantFtsState.removeFtsDocument
  cases hpos : s.docPositions.lookup entityId with
  | none =>
    have hnew := h.positions.lookup_eq_none.mp hpos
    exact ⟨h.positions, fun e he => ⟨he, fun heq => hnew (heq ▸ he)⟩⟩
  | some pos =>
    have hnodup : ((s.docs.map Prod.fst).map id).Nodup := by
      rw [List.map_id]
      exact h.positions.nodup
    dsimp only
    rw [← List.eraseIdx_map]
    refine ⟨h.positions.remove hpos, fun e he => ?_⟩
    exact (mem_eraseIdx_iff hnodup ((h.positions entityId pos).mp hpos)).mp he

theorem WellKept.empty : TenantFtsState.empty.WellKept where
  positions := Tracks.empty
  known _ he := absurd he List.not_mem_nil
  zone := ⟨Tracks.empty, fun _ => List.Pairwise.nil, fun _ => List.Pairwise.nil,
    fun _ => List.Pairwise.nil, fun _ => List.Pairwise.nil⟩

/-! ### Runs -/

/-- The entities that a call registers, in their order. -/
def registered (s : TenantFtsState) : FtsCall → List String
  | .documentAttr entityId _ text => if Text.trim text = "" then [] else [entityId]
  | .documentsBatch docs => docs.map IndexedEntityDocument.entityId
  | .coordinateAxis entityId isLatitude coordDeg =>
    if isFinite coordDeg && s.otherAxisKnown entityId isLatitude then [entityId] else []
  | .embedding entityId vector => if vector = [] then [] else [entityId]
  | .synonymGroup _ => []
  | .remove _ => []

/-- No document that the call makes gets the number of a present one. -/
def FreshRows (s : TenantFtsState) (call : FtsCall) : Prop :=
  Roll.AllFresh (2 ^ 32) s.zone5b.directory (s.registered call)

section Scored
variable [HybridScores]

/-- Every call but a removal registers its entities. -/
theorem ftsStep_registers {s : TenantFtsState} (h : s.WellKept) {call : FtsCall}
    (hcall : ∀ entityId, call ≠ .remove entityId) : Registers s (ftsStep s call) (s.registered call) := by
  cases call with
  | documentAttr entityId attrName text => exact registerFtsDocumentAttr_registers h _ _ _
  | documentsBatch docs => exact registerFtsDocumentsBatch_registers h docs
  | coordinateAxis entityId isLatitude coordDeg =>
    exact registerFtsEntityCoordinateAxis_registers h _ _ _
  | embedding entityId vector => exact registerFtsEntityEmbedding_registers h _ _
  | synonymGroup group => exact registerTenantSynonymGroup_registers h group
  | remove entityId => exact absurd rfl (hcall entityId)

theorem WellKept.ftsStep {s : TenantFtsState} (h : s.WellKept) (call : FtsCall) :
    (ftsStep s call).WellKept := by
  by_cases hcall : ∃ entityId, call = .remove entityId
  · obtain ⟨entityId, rfl⟩ := hcall
    exact h.removeFtsDocument entityId
  · exact (ftsStep_registers h (not_exists.mp hcall)).wellKept h

/-- A call that gives fresh rows keeps them sound. -/
theorem sound_ftsStep {s : TenantFtsState} (h : s.WellKept) (hs : s.zone5b.Sound) {call : FtsCall}
    (hfresh : s.FreshRows call) : (ftsStep s call).zone5b.Sound := by
  by_cases hcall : ∃ entityId, call = .remove entityId
  · obtain ⟨entityId, rfl⟩ := hcall
    rw [Search.ftsStep, removeFtsDocument_zone5b]
    exact hs.removeDocument h.zone entityId
  · exact (ftsStep_registers h (not_exists.mp hcall)).zone.sound hs hfresh

/-- A call that gives a number a second time leaves two documents of it. -/
theorem freshRows_of_nodup {s : TenantFtsState} (h : s.WellKept) (hbefore : s.zone5b.rowIds.Nodup)
    {call : FtsCall} (hafter : (ftsStep s call).zone5b.rowIds.Nodup) : s.FreshRows call := by
  by_cases hcall : ∃ entityId, call = .remove entityId
  · obtain ⟨entityId, rfl⟩ := hcall
    trivial
  · have hregisters := (ftsStep_registers h (not_exists.mp hcall)).zone
    rw [← MbfHybridSearchIndex.directory_snd] at hbefore hafter
    rw [hregisters.directory] at hafter
    exact (Roll.nodup_foldl_enrol_iff hbefore).mp hafter

theorem WellKept.ftsRun (calls : List FtsCall) : (ftsRun calls).WellKept := by
  suffices h : ∀ s : TenantFtsState, s.WellKept → (calls.foldl Search.ftsStep s).WellKept from
    h _ .empty
  induction calls with
  | nil => exact fun s hs => hs
  | cons call calls ih => exact fun s hs => ih _ (hs.ftsStep call)

/-! ### Row identity -/

/-- The rows identify the documents: no two share one, what is filed has a document, a search for
a token of a document finds it, and a removal takes no other entity from a result. -/
structure RowIdentity (s : TenantFtsState) : Prop where
  distinct : s.zone5b.rowIds.Nodup
  present : ∀ r, s.zone5b.Filed r → r ∈ s.zone5b.rowIds
  found : ∀ d ∈ s.zone5b.docs, ∀ t ∈ d.tokens, ∃ enough, ∀ topK, enough ≤ topK →
    ⟨d.entityId, d.rowId⟩ ∈ s.zone5b.searchHybrid t none topK
  kept : ∀ removed queryText queryVector topK, ∀ hit ∈ s.zone5b.searchHybrid queryText queryVector topK,
    hit.entityId ≠ removed → ∃ enough, ∀ topK', enough ≤ topK' →
      hit ∈ (s.removeFtsDocument removed).zone5b.searchHybrid queryText queryVector topK'

theorem rowIdentity_of_sound {s : TenantFtsState} (h : s.WellKept) (hs : s.zone5b.Sound) :
    s.RowIdentity where
  distinct := hs.nodup
  present := hs.present
  found d hd t ht := by
    refine ⟨(s.zone5b.hits t none).length, fun topK henough => ?_⟩
    exact (MbfHybridSearchIndex.mem_searchHybrid henough).mpr (hs.hit_of_token hd ht)
  kept removed queryText queryVector topK hit hhit hne := by
    have hstays := hs.hits_removeDocument h.zone
      (MbfHybridSearchIndex.mem_hits_of_mem_searchHybrid hhit) hne
    rw [← removeFtsDocument_zone5b] at hstays
    exact ⟨_, fun topK' henough => (MbfHybridSearchIndex.mem_searchHybrid henough).mpr hstays⟩

/-- In every state that a run reaches the rows identify the documents, exactly when no call of the
run makes a document with the number of a present one. -/
theorem rowIdentity_iff_freshRows (calls : List FtsCall) :
    (∀ before after, calls = before ++ after → (ftsRun before).RowIdentity) ↔
      ∀ before call after, calls = before ++ call :: after → (ftsRun before).FreshRows call := by
  have hstep : ∀ before call, ftsRun (before ++ [call]) = ftsStep (ftsRun before) call := by
    intro before call
    rw [ftsRun, List.foldl_append]
    rfl
  constructor
  · intro h before call after hcalls
    have hafter := (h (before ++ [call]) after (by simp [hcalls])).distinct
    rw [hstep] at hafter
    exact freshRows_of_nodup (.ftsRun before) (h before (call :: after) hcalls).distinct hafter
  · intro h before after hcalls
    suffices hsound : (ftsRun before).zone5b.Sound from rowIdentity_of_sound (.ftsRun before) hsound
    induction before using List.reverseRecOn generalizing after with
    | nil =>
      refine ⟨List.nodup_nil, fun r hr => ?_, fun d hd => absurd hd List.not_mem_nil⟩
      rcases hr with ⟨_, hr⟩ | ⟨_, hr⟩ | ⟨_, hr⟩ | ⟨_, hr⟩ | hr
      all_goals exact absurd hr (by simp [ftsRun, empty, MbfHybridSearchIndex.new])
    | append_singleton before call ih =>
      rw [hstep]
      have hcalls' : calls = before ++ call :: after := by simp [hcalls]
      exact sound_ftsStep (.ftsRun before) (ih (call :: after) hcalls') (h before call after hcalls')

end Scored

/-- Every score is the same: the hits come in the order of their candidates. -/
@[reducible] def evenScores : HybridScores where
  encodeSpatialCellH3Morton _ _ := 0
  similar _ _ _ := false
  precedes _ _ _ _ _ := true

/-- Of three documents the first is removed before the third comes, which gets the number of the second;
a search for the second then answers with the third. -/
theorem removed_number_is_given_again :
    let calls : List FtsCall := [.documentAttr "a" (some "notes") "alpha",
      .documentAttr "b" (some "notes") "bravo", .remove "a", .documentAttr "c" (some "notes") "gamma"]
    (@ftsRun evenScores calls).zone5b.directory = [("b", 1), ("c", 1)] ∧
      (@MbfHybridSearchIndex.searchHybrid evenScores (@ftsRun evenScores calls).zone5b "bravo" none
        10).map HybridSearchHit.entityId = ["c"] ∧
      ¬@RowIdentity evenScores (@ftsRun evenScores calls) := by
  have hdirectory : (@ftsRun evenScores [.documentAttr "a" (some "notes") "alpha",
      .documentAttr "b" (some "notes") "bravo", .remove "a",
      .documentAttr "c" (some "notes") "gamma"]).zone5b.directory = [("b", 1), ("c", 1)] := by
    decide +kernel
  refine ⟨hdirectory, by decide +kernel, fun h => ?_⟩
  have hdistinct := @RowIdentity.distinct evenScores _ h
  rw [← MbfHybridSearchIndex.directory_snd, hdirectory] at hdistinct
  exact absurd hdistinct (by decide)

end TenantFtsState
end MetriEngine.Search
