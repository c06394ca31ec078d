import MetriEngine.Search.RowMaps

/-!
# What a search finds

A document that is filed under a token is a hit of the token, under its own entity and row. A
search over the index from which one document is gone has the hits of the other documents.
-/
namespace MetriEngine.Search
open Foundation Eav
namespace MbfHybridSearchIndex

/-! ### The document of a row -/

theorem mem_documentOf {s : MbfHybridSearchIndex} {r : ℕ} {d : IndexedEntityDocument}
    (h : s.documentOf r = some d) : d ∈ s.docs ∧ d.rowId = r := by
  unfold documentOf at h
  rcases Option.or_eq_some_iff.mp h with h | ⟨_, h⟩
  · obtain ⟨hd, hr⟩ := Option.filter_eq_some_iff.mp h
    exact ⟨List.mem_of_getElem? hd, of_decide_eq_true hr⟩
  · have hr := List.find?_some h
    exact ⟨List.mem_of_find?_eq_some h, of_decide_eq_true hr⟩

theorem documentOf_eq {s : MbfHybridSearchIndex} (h : s.rowIds.Nodup) {d : IndexedEntityDocument}
    (hd : d ∈ s.docs) : s.documentOf d.rowId = some d := by
  cases hfound : s.documentOf d.rowId with
  | none =>
    unfold documentOf at hfound
    have hnone := (Option.or_eq_none_iff.mp hfound).2
    exact absurd (decide_eq_true (Eq.refl d.rowId)) (List.find?_eq_none.mp hnone d hd)
  | some a =>
    obtain ⟨ha, hrow⟩ := mem_documentOf hfound
    rw [List.inj_on_of_nodup_map h ha hd hrow]

/-! ### Hits -/

section Hits
variable [HybridScores] {s : MbfHybridSearchIndex}

/-- The rows that are looked at. -/
def candidates (s : MbfHybridSearchIndex) (queryText : String) (queryVector : Option (List F32)) :
    List ℕ :=
  (s.queryTokens queryText).flatMap s.tokenRows ++
    if queryVector.isSome then s.rabitqVectors.entries.map Prod.fst else []

theorem mem_hits {queryText : String} {queryVector : Option (List F32)} {hit : HybridSearchHit} :
    hit ∈ s.hits queryText queryVector ↔ ∃ r ∈ s.candidates queryText queryVector,
      s.hitOf (s.queryTokens queryText) ((s.queryTokens queryText).flatMap s.tokenRows)
        queryVector r = some hit := by
  unfold hits
  dsimp only
  rw [List.mem_filterMap]
  simp only [List.mem_dedup]
  rfl

/-- Why a candidate with a document becomes a hit. -/
theorem hitOf_eq_some {queryTokens : List String} {textual : List ℕ}
    {queryVector : Option (List F32)} {r : ℕ} {hit : HybridSearchHit} :
    s.hitOf queryTokens textual queryVector r = some hit ↔
      ∃ d, s.documentOf r = some d ∧
        ¬(queryTokens ≠ [] ∧ lexicalMatch d queryTokens = false ∧ r ∉ textual ∧
          s.vectorMatch r d queryVector = false) ∧ hit = ⟨d.entityId, r⟩ := by
  unfold hitOf
  rw [Option.bind_eq_some_iff]
  refine exists_congr fun d => and_congr_right fun _ => ?_
  split_ifs with hnone
  · exact iff_of_false (by simp) fun h => h.1 hnone
  · rw [Option.some.injEq, eq_comm]
    exact (and_iff_right hnone).symm

/-- A search whose list is long enough has every hit. -/
theorem mem_searchHybrid {queryText : String} {queryVector : Option (List F32)} {topK : ℕ}
    (h : (s.hits queryText queryVector).length ≤ topK) {hit : HybridSearchHit} :
    hit ∈ s.searchHybrid queryText queryVector topK ↔ hit ∈ s.hits queryText queryVector := by
  unfold searchHybrid
  rw [List.take_of_length_le (by rwa [List.length_insertionSort])]
  exact (List.perm_insertionSort _ _).mem_iff

theorem mem_hits_of_mem_searchHybrid {queryText : String} {queryVector : Option (List F32)}
    {topK : ℕ} {hit : HybridSearchHit} (h : hit ∈ s.searchHybrid queryText queryVector topK) :
    hit ∈ s.hits queryText queryVector := by
  unfold searchHybrid at h
  exact (List.perm_insertionSort _ _).mem_iff.mp (List.mem_of_mem_take h)

omit [HybridScores] in
/-- A query asks at least for its own tokens. -/
theorem tokenizeNormalized_subset_queryTokens (s : MbfHybridSearchIndex) (queryText : String) :
    tokenizeNormalized queryText ⊆ s.queryTokens queryText := by
  have hsynonyms : ∀ (synonyms acc : List String),
      acc ⊆ synonyms.foldl (fun acc syn => if syn ∈ acc then acc else acc ++ [syn]) acc := by
    intro synonyms
    induction synonyms with
    | nil => exact fun acc => List.Subset.refl acc
    | cons syn synonyms ih =>
      intro acc
      refine List.Subset.trans ?_ (ih _)
      dsimp only
      split_ifs
      · exact List.Subset.refl acc
      · exact List.subset_append_left _ _
  have hexpanded : ∀ base acc : List String, acc ⊆ base.foldl (fun acc tok =>
      (s.thesaurus.expand tok).foldl (fun acc syn => if syn ∈ acc then acc else acc ++ [syn])
        acc) acc := by
    intro base
    induction base with
    | nil => exact fun acc => List.Subset.refl acc
    | cons tok base ih => exact fun acc => List.Subset.trans (hsynonyms _ acc) (ih _)
  unfold queryTokens
  dsimp only
  refine List.Subset.trans ?_ (hexpanded _ _)
  split_ifs
  · exact List.subset_append_left _ _
  · exact List.Subset.refl _

theorem Sound.hit_of_token (h : s.Sound) {d : IndexedEntityDocument} (hd : d ∈ s.docs) {t : String}
    (ht : t ∈ d.tokens) : ⟨d.entityId, d.rowId⟩ ∈ s.hits t none := by
  have hasked : t ∈ s.queryTokens t := by
    refine s.tokenizeNormalized_subset_queryTokens t ?_
    rw [tokenizeNormalized_token ht]
    exact List.mem_cons_self
  have hrow : d.rowId ∈ (s.queryTokens t).flatMap s.tokenRows := by
    refine List.mem_flatMap.mpr ⟨t, hasked, ?_⟩
    unfold tokenRows
    simp [h.tokens d hd t ht]
  refine mem_hits.mpr ⟨d.rowId, List.mem_append_left _ hrow, hitOf_eq_some.mpr ?_⟩
  exact ⟨d, documentOf_eq h.nodup hd, fun hnone => hnone.2.2.1 hrow, rfl⟩

end Hits

/-! ### The index without one row -/

/-- The maps of an index from which one row was taken. -/
structure Without (rowId : ℕ) (s s' : MbfHybridSearchIndex) : Prop where
  lexicon : s'.fstLexicon = s.fstLexicon.retain rowId
  ngrams : s'.ngramBitmaps = s.ngramBitmaps.retain rowId
  phonetics : s'.phoneticIndex = s.phoneticIndex.retain rowId
  vectors : s'.rabitqVectors = s.rabitqVectors.erase rowId
  deletes : s'.symspellDeletes = s.symspellDeletes
  thesaurus : s'.thesaurus = s.thesaurus

namespace Without
variable {rowId : ℕ} {s s' : MbfHybridSearchIndex}

theorem queryTokens_eq (h : Without rowId s s') (queryText : String) :
    s'.queryTokens queryText = s.queryTokens queryText := by
  unfold queryTokens
  rw [h.thesaurus]

theorem matchedCanonicals_eq (h : Without rowId s s') (qTok : String) :
    s'.matchedCanonicals qTok = s.matchedCanonicals qTok := by
  unfold matchedCanonicals
  rw [h.deletes, h.lexicon, Postings.keys_retain]

theorem mem_overlappingRows (h : Without rowId s s') {r : ℕ} (hr : r ≠ rowId) (qTok : String) :
    r ∈ s'.overlappingRows qTok ↔ r ∈ s.overlappingRows qTok := by
  have hrows : ∀ ng, (s'.ngramBitmaps.rows ng).count r = (s.ngramBitmaps.rows ng).count r := by
    intro ng
    rw [h.ngrams, Postings.rows_retain, List.count_filter (by simpa using hr)]
  have hcount : ((generateNgrams qTok).flatMap s'.ngramBitmaps.rows).count r =
      ((generateNgrams qTok).flatMap s.ngramBitmaps.rows).count r := by
    rw [List.count_flatMap, List.count_flatMap]
    exact congrArg List.sum (List.map_congr_left fun ng _ => hrows ng)
  unfold overlappingRows
  dsimp only
  rw [List.mem_filter, List.mem_filter, List.mem_dedup, List.mem_dedup, ← List.count_pos_iff,
    ← List.count_pos_iff, hcount]

theorem mem_tokenRows (h : Without rowId s s') {r : ℕ} (hr : r ≠ rowId) (qTok : String) :
    r ∈ s'.tokenRows qTok ↔ r ∈ s.tokenRows qTok := by
  have hlexicon : ∀ t, r ∈ s'.fstLexicon.rows t ↔ r ∈ s.fstLexicon.rows t := by
    intro t
    rw [h.lexicon, Postings.mem_rows_retain]
    exact and_iff_left hr
  have hphonetics : ∀ k, r ∈ s'.phoneticIndex.rows k ↔ r ∈ s.phoneticIndex.rows k := by
    intro k
    rw [h.phonetics, Postings.mem_rows_retain]
    exact and_iff_left hr
  unfold tokenRows
  simp only [List.mem_append, List.mem_flatMap]
  rw [h.matchedCanonicals_eq, h.mem_overlappingRows hr]
  simp only [hlexicon, hphonetics]

theorem lookup_vectors (h : Without rowId s s') {r : ℕ} (hr : r ≠ rowId) :
    s'.rabitqVectors.lookup r = s.rabitqVectors.lookup r := by
  rw [h.vectors, OrdMap.lookup_erase, if_neg hr]

theorem mem_vectors (h : Without rowId s s') {r : ℕ} (hr : r ≠ rowId) :
    r ∈ s'.rabitqVectors.entries.map Prod.fst ↔ r ∈ s.rabitqVectors.entries.map Prod.fst := by
  have hkeys : ∀ m : OrdMap ℕ (List F32), r ∈ m.entries.map Prod.fst ↔ ∃ v, m.lookup r = some v := by
    intro m
    simp only [List.mem_map, Prod.exists, exists_and_right, exists_eq_right, OrdMap.lookup_eq_some]
  rw [hkeys, hkeys, h.lookup_vectors hr]

variable [HybridScores]

theorem vectorMatch_eq (h : Without rowId s s') {r : ℕ} (hr : r ≠ rowId) (d : IndexedEntityDocument)
    (queryVector : Option (List F32)) :
    s'.vectorMatch r d queryVector = s.vectorMatch r d queryVector := by
  unfold vectorMatch
  rw [h.lookup_vectors hr]

omit [HybridScores] in
theorem mem_textual (h : Without rowId s s') {r : ℕ} (hr : r ≠ rowId) (queryTokens : List String) :
    r ∈ queryTokens.flatMap s'.tokenRows ↔ r ∈ queryTokens.flatMap s.tokenRows := by
  simp only [List.mem_flatMap, h.mem_tokenRows hr]

/-- A hit in another row stays, when its row leads to the document it led to. -/
theorem mem_hits (h : Without rowId s s') {queryText : String} {queryVector : Option (List F32)}
    {hit : HybridSearchHit} (hne : hit.rowId ≠ rowId)
    (hdoc : s'.documentOf hit.rowId = s.documentOf hit.rowId)
    (hhit : hit ∈ s.hits queryText queryVector) : hit ∈ s'.hits queryText queryVector := by
  obtain ⟨r, hr, hof⟩ := MbfHybridSearchIndex.mem_hits.mp hhit
  obtain ⟨d, hd, hreason, rfl⟩ := hitOf_eq_some.mp hof
  dsimp only at hne hdoc
  have htextual := h.mem_textual hne (s.queryTokens queryText)
  refine MbfHybridSearchIndex.mem_hits.mpr ⟨r, ?_, hitOf_eq_some.mpr ⟨d, hdoc.trans hd, ?_, rfl⟩⟩
  · unfold candidates at hr ⊢
    rw [List.mem_append] at hr ⊢
    rw [h.queryTokens_eq, htextual]
    refine hr.imp_right fun hvectorial => ?_
    split_ifs at hvectorial ⊢ with hv
    · exact (h.mem_vectors hne).mpr hvectorial
    · exact hvectorial
  · rw [h.queryTokens_eq, htextual, h.vectorMatch_eq hne]
    exact hreason

end Without

/-- The removal of an entity takes no hit of another. -/
theorem Sound.hits_removeDocument [HybridScores] {s : MbfHybridSearchIndex} (h : s.Sound)
    (hkept : s.WellKept) {entityId queryText : String} {queryVector : Option (List F32)}
    {hit : HybridSearchHit} (hhit : hit ∈ s.hits queryText queryVector)
    (hne : hit.entityId ≠ entityId) : hit ∈ (s.removeDocument entityId).hits queryText queryVector := by
  cases hpos : s.entityPositions.lookup entityId with
  | none =>
    rw [removeDocument_of_new hkept (hkept.positions.lookup_eq_none.mp hpos)]
    exact hhit
  | some pos =>
    obtain ⟨removed, hd, hid⟩ := hkept.document_at hpos
    have heq := removeDocument_of_present hkept hpos hd
    have hwithout : Without removed.rowId s (s.removeDocument entityId) := by
      rw [heq]
      exact ⟨rfl, rfl, rfl, rfl, rfl, rfl⟩
    obtain ⟨r, hr, hof⟩ := mem_hits.mp hhit
    obtain ⟨d, hdoc, _, rfl⟩ := hitOf_eq_some.mp hof
    obtain ⟨hmem, rfl⟩ := mem_documentOf hdoc
    have hrow : d.rowId ≠ removed.rowId := by
      intro hrow
      have := List.inj_on_of_nodup_map h.nodup hmem (List.mem_of_getElem? hd) hrow
      exact hne (this ▸ hid)
    refine hwithout.mem_hits hrow ?_ hhit
    have hstays : d ∈ (s.removeDocument entityId).docs := by
      rw [heq]
      exact (mem_eraseIdx_iff h.nodup hd).mpr ⟨hmem, hrow⟩
    rw [hdoc]
    exact documentOf_eq (h.removeDocument hkept entityId).nodup hstays

end MbfHybridSearchIndex
end MetriEngine.Search
