import MetriEngine.Foundation.Positions
import MetriEngine.Search.Corpus
import Mathlib.Data.List.InsertIdx

/-!
# The rows of the search index

What one registration and one removal do to the documents and to the maps that lead to them.
A registration files one row in the maps and leaves the other rows where they are; a removal
takes one row away. The documents with their rows are a roll, and as long as each newcomer gets
a free number the maps lead to the right documents.
-/
namespace MetriEngine.Search
open Foundation Eav

theorem map_modify {α β : Type*} {g : α → β} {f : α → α} (hg : ∀ a, g (f a) = g a) (l : List α)
    (i : ℕ) : (l.modify i f).map g = l.map g := by
  refine List.ext_getElem? fun j => ?_
  rw [List.getElem?_map, List.getElem?_map, List.getElem?_modify]
  cases l[j]? with
  | none => rfl
  | some a =>
    by_cases hij : i = j
    · simp [hij, hg]
    · simp [hij]

theorem mem_modify {α : Type*} {f : α → α} {l : List α} {i : ℕ} {a : α}
    (h : a ∈ l.modify i f) : a ∈ l ∨ ∃ b, l[i]? = some b ∧ a = f b := by
  obtain ⟨j, hj⟩ := List.mem_iff_getElem?.mp h
  rw [List.getElem?_modify] at hj
  cases hlj : l[j]? with
  | none => simp [hlj] at hj
  | some b =>
    by_cases hij : i = j
    · subst hij
      exact Or.inr ⟨b, hlj, by simpa [hlj, eq_comm] using hj⟩
    · refine Or.inl (List.mem_of_getElem? (i := j) ?_)
      simpa [hlj, hij] using hj

theorem mem_eraseIdx_iff {α β : Type*} {g : α → β} {l : List α} (h : (l.map g).Nodup) {i : ℕ}
    {a b : α} (hi : l[i]? = some a) : b ∈ l.eraseIdx i ↔ b ∈ l ∧ g b ≠ g a := by
  have hmap : ∀ {j : ℕ} {c : α}, l[j]? = some c → (l.map g)[j]? = some (g c) := by
    intro j c hj
    rw [List.getElem?_map, hj]
    rfl
  rw [List.mem_eraseIdx_iff_getElem?]
  constructor
  · rintro ⟨j, hne, hj⟩
    refine ⟨List.mem_of_getElem? hj, fun hg => hne ?_⟩
    obtain ⟨hlt, _⟩ := List.getElem?_eq_some_iff.mp (hmap hj)
    exact (List.getElem?_inj hlt h).mp ((hmap hj).trans (hg ▸ (hmap hi).symm))
  · rintro ⟨hb, hne⟩
    obtain ⟨j, hj⟩ := List.mem_iff_getElem?.mp hb
    refine ⟨j, ?_, hj⟩
    rintro rfl
    exact hne (congrArg g (Option.some.inj (hj.symm.trans hi)))

namespace IndexedEntityDocument

theorem mem_tokens {d : IndexedEntityDocument} {t : String} :
    t ∈ d.tokens ↔ t ∈ tokenizeNormalized d.code ∨ t ∈ tokenizeNormalized d.title ∨
      t ∈ tokenizeNormalized d.description := by
  rw [tokens_eq, List.mem_append, List.mem_append, or_assoc]

end IndexedEntityDocument

namespace MbfHybridSearchIndex

/-! ### Merging texts -/

theorem mem_tokens_appendSegment {a b t : String} (h : t ∈ tokenizeNormalized (appendSegment a b)) :
    t ∈ tokenizeNormalized a ∨ t ∈ tokenizeNormalized b := by
  unfold appendSegment at h
  split_ifs at h
  · exact Or.inl h
  · exact Or.inr h
  · rw [tokenizeNormalized_append] at h
    exact List.mem_append.mp h

/-- A merged document has no token that neither of the two had. -/
theorem mem_tokens_merge {a b : IndexedEntityDocument} {t : String}
    (h : t ∈ (mergeExistingDocument a b).tokens) : t ∈ a.tokens ∨ t ∈ b.tokens := by
  rw [IndexedEntityDocument.mem_tokens] at h
  rw [IndexedEntityDocument.mem_tokens, IndexedEntityDocument.mem_tokens]
  have hcode : t ∈ tokenizeNormalized (mergeExistingDocument a b).code →
      t ∈ tokenizeNormalized a.code ∨ t ∈ tokenizeNormalized b.code := by
    intro h
    unfold mergeExistingDocument at h
    dsimp only at h
    split_ifs at h
    · exact Or.inl h
    · exact Or.inl h
    · exact Or.inr h
    · rw [tokenizeNormalized_append] at h
      exact List.mem_append.mp h
  have htitle : t ∈ tokenizeNormalized (mergeExistingDocument a b).title →
      t ∈ tokenizeNormalized a.title ∨ t ∈ tokenizeNormalized b.title := by
    intro h
    unfold mergeExistingDocument at h
    dsimp only at h
    split_ifs at h
    · exact Or.inl h
    · exact Or.inr h
    · exact Or.inl h
  have hdescription : t ∈ tokenizeNormalized (mergeExistingDocument a b).description →
      t ∈ tokenizeNormalized a.description ∨ t ∈ tokenizeNormalized b.description := by
    intro h
    unfold mergeExistingDocument at h
    dsimp only at h
    split_ifs at h
    · exact Or.inl h
    · exact mem_tokens_appendSegment h
  rcases h with h | h | h
  · exact (hcode h).imp Or.inl Or.inl
  · exact (htitle h).imp (Or.inr ∘ Or.inl) (Or.inr ∘ Or.inl)
  · exact (hdescription h).imp (Or.inr ∘ Or.inr) (Or.inr ∘ Or.inr)

/-! ### Filing one row -/

/-- The row stands in some map of the index. -/
def Filed (s : MbfHybridSearchIndex) (rowId : ℕ) : Prop :=
  (∃ t, rowId ∈ s.fstLexicon.rows t) ∨ (∃ g, rowId ∈ s.ngramBitmaps.rows g) ∨
    (∃ k, rowId ∈ s.phoneticIndex.rows k) ∨ (∃ c, rowId ∈ s.spatialMortonCells.rows c) ∨
      s.rabitqVectors.contains rowId = true

/-- The lists are ascending, as `binary_search` asks for. -/
structure Ascending (s : MbfHybridSearchIndex) : Prop where
  lexicon : s.fstLexicon.Ascending
  ngrams : s.ngramBitmaps.Ascending
  phonetics : s.phoneticIndex.Ascending
  cells : s.spatialMortonCells.Ascending

/-- The index with one row filed in more places; the documents are as they were. -/
structure Files (rowId : ℕ) (s s' : MbfHybridSearchIndex) : Prop where
  docs : s'.docs = s.docs
  positions : s'.entityPositions = s.entityPositions
  lexicon : Postings.Adds rowId s.fstLexicon s'.fstLexicon
  ngrams : Postings.Adds rowId s.ngramBitmaps s'.ngramBitmaps
  phonetics : Postings.Adds rowId s.phoneticIndex s'.phoneticIndex
  cells : Postings.Adds rowId s.spatialMortonCells s'.spatialMortonCells
  vectors : ∀ r, s'.rabitqVectors.contains r = true → s.rabitqVectors.contains r = true ∨ r = rowId

namespace Files
variable {rowId : ℕ} {s s' s'' : MbfHybridSearchIndex}

theorem refl (rowId : ℕ) (s : MbfHybridSearchIndex) : Files rowId s s :=
  ⟨rfl, rfl, .refl _ _, .refl _ _, .refl _ _, .refl _ _, fun _ h => Or.inl h⟩

theorem trans (h : Files rowId s s') (h' : Files rowId s' s'') : Files rowId s s'' where
  docs := h'.docs.trans h.docs
  positions := h'.positions.trans h.positions
  lexicon := h.lexicon.trans h'.lexicon
  ngrams := h.ngrams.trans h'.ngrams
  phonetics := h.phonetics.trans h'.phonetics
  cells := h.cells.trans h'.cells
  vectors r hr := by
    rcases h'.vectors r hr with hr | hr
    · exact h.vectors r hr
    · exact Or.inr hr

theorem ascending (h : Files rowId s s') (ha : s.Ascending) : s'.Ascending :=
  ⟨h.lexicon.ascending ha.lexicon, h.ngrams.ascending ha.ngrams,
    h.phonetics.ascending ha.phonetics, h.cells.ascending ha.cells⟩

/-- No other row is filed. -/
theorem only (h : Files rowId s s') {r : ℕ} (hr : s'.Filed r) : s.Filed r ∨ r = rowId := by
  rcases hr with ⟨k, hr⟩ | ⟨k, hr⟩ | ⟨k, hr⟩ | ⟨k, hr⟩ | hr
  · exact (h.lexicon.only k r hr).imp_left fun hr => Or.inl ⟨k, hr⟩
  · exact (h.ngrams.only k r hr).imp_left fun hr => Or.inr (Or.inl ⟨k, hr⟩)
  · exact (h.phonetics.only k r hr).imp_left fun hr => Or.inr (Or.inr (Or.inl ⟨k, hr⟩))
  · exact (h.cells.only k r hr).imp_left fun hr => Or.inr (Or.inr (Or.inr (Or.inl ⟨k, hr⟩)))
  · exact (h.vectors r hr).imp_left fun hr => Or.inr (Or.inr (Or.inr (Or.inr hr)))

end Files

theorem indexTokenKeys_files (s : MbfHybridSearchIndex) (token : String) (rowId : ℕ) :
    Files rowId s (s.indexTokenKeys token rowId) := by
  have hposts : ∀ (keys : List String) (m : Postings String),
      Postings.Adds rowId m (keys.foldl (fun m key => m.post key rowId) m) :=
    fun keys m => Postings.Adds.foldl (fun m key => m.post_adds key rowId) keys m
  unfold indexTokenKeys
  constructor
  · rfl
  · rfl
  · exact s.fstLexicon.post_adds token rowId
  · dsimp only
    exact hposts (generateNgrams token) s.ngramBitmaps
  · dsimp only
    exact hposts (phoneticKeys token) s.phoneticIndex
  · exact .refl _ _
  · exact fun _ h => Or.inl h

theorem indexToken_files (s : MbfHybridSearchIndex) (rowId : ℕ) (token : String) :
    Files rowId s (s.indexToken rowId token) := by
  unfold indexToken
  cases s.fstLexicon.lookup token with
  | none => exact s.indexTokenKeys_files token rowId
  | some entry =>
    dsimp only
    have hpushed : Files rowId s { s with fstLexicon := s.fstLexicon.post token rowId } :=
      ⟨rfl, rfl, Postings.post_adds _ _ _, .refl _ _, .refl _ _, .refl _ _, fun _ h => Or.inl h⟩
    split_ifs
    · exact .refl rowId s
    · cases s.tokenKeysCache.lookup token with
      | none => exact hpushed.trans (indexTokenKeys_files _ token rowId)
      | some keys =>
        exact ⟨rfl, rfl, hpushed.lexicon,
          Postings.Adds.foldl (fun m ng => m.postKnown_adds ng rowId) _ _,
          Postings.Adds.foldl (fun m ph => m.postKnown_adds ph rowId) _ _, .refl _ _,
          fun _ h => Or.inl h⟩

/-- The row stands under the token afterwards, also where it is refused as known. -/
theorem mem_rows_indexToken (s : MbfHybridSearchIndex) (rowId : ℕ) (token : String) :
    rowId ∈ (s.indexToken rowId token).fstLexicon.rows token := by
  have hpost : ∀ m : Postings String, rowId ∈ (m.post token rowId).rows token :=
    fun m => Postings.mem_rows_post.mpr (Or.inl ⟨rfl, rfl⟩)
  unfold indexToken
  cases hentry : s.fstLexicon.lookup token with
  | none => exact hpost _
  | some entry =>
    dsimp only
    split_ifs with hknown
    · rw [Postings.rows, hentry]
      exact mem_of_not_pushed hknown
    · cases s.tokenKeysCache.lookup token with
      | none => exact hpost _
      | some keys => exact hpost _

theorem indexTokens_files (s : MbfHybridSearchIndex) (rowId : ℕ) (tokens : List String) :
    Files rowId s (tokens.foldl (fun t token => t.indexToken rowId token) s) := by
  induction tokens generalizing s with
  | nil => exact .refl rowId s
  | cons token tokens ih => exact (s.indexToken_files rowId token).trans (ih _)

theorem mem_rows_indexTokens (s : MbfHybridSearchIndex) (rowId : ℕ) {tokens : List String}
    {t : String} (h : t ∈ tokens) :
    rowId ∈ (tokens.foldl (fun s token => s.indexToken rowId token) s).fstLexicon.rows t := by
  induction tokens generalizing s with
  | nil => cases h
  | cons token tokens ih =>
    rw [List.foldl_cons]
    rcases List.mem_cons.mp h with rfl | h
    · exact (indexTokens_files _ rowId tokens).lexicon.keeps _ _ (s.mem_rows_indexToken rowId t)
    · exact ih _ h

theorem fileEmbedding_files (s : MbfHybridSearchIndex) (rowId : ℕ) (embedding : Option (List F32)) :
    Files rowId s (s.fileEmbedding rowId embedding) := by
  cases embedding with
  | none => exact .refl rowId s
  | some e =>
    refine ⟨rfl, rfl, .refl _ _, .refl _ _, .refl _ _, .refl _ _, fun r hr => ?_⟩
    by_cases h : r = rowId
    · exact Or.inr h
    · refine Or.inl ?_
      unfold OrdMap.contains fileEmbedding at hr
      dsimp only at hr
      rwa [OrdMap.lookup_insert_of_ne _ _ h] at hr

/-- The row of a document filed under all that the document has. -/
def fileDocument [HybridScores] (s : MbfHybridSearchIndex) (rowId : ℕ)
    (doc : IndexedEntityDocument) : MbfHybridSearchIndex :=
  ((doc.indexTokens.foldl (fun t token => t.indexToken rowId token) s).fileEmbedding rowId
    doc.embedding).fileCoordinates rowId doc.coordinatesWgs84

section Scored
variable [HybridScores]

theorem fileCoordinates_files (s : MbfHybridSearchIndex) (rowId : ℕ)
    (coords : Option (F64 × F64)) : Files rowId s (s.fileCoordinates rowId coords) := by
  cases coords with
  | none => exact .refl rowId s
  | some c =>
    exact ⟨rfl, rfl, .refl _ _, .refl _ _, .refl _ _, Postings.post_adds _ _ _,
      fun _ h => Or.inl h⟩

theorem fileDocument_files (s : MbfHybridSearchIndex) (rowId : ℕ) (doc : IndexedEntityDocument) :
    Files rowId s (s.fileDocument rowId doc) :=
  ((s.indexTokens_files rowId doc.indexTokens).trans (fileEmbedding_files _ rowId _)).trans
    (fileCoordinates_files _ rowId _)

theorem mem_rows_fileDocument (s : MbfHybridSearchIndex) (rowId : ℕ) {doc : IndexedEntityDocument}
    {t : String} (h : t ∈ doc.tokens) : rowId ∈ (s.fileDocument rowId doc).fstLexicon.rows t := by
  have hrest : Files rowId (doc.indexTokens.foldl (fun t token => t.indexToken rowId token) s)
      (s.fileDocument rowId doc) :=
    (fileEmbedding_files _ rowId _).trans (fileCoordinates_files _ rowId _)
  exact hrest.lexicon.keeps _ _ (s.mem_rows_indexTokens rowId (doc.tokens_subset h))

end Scored

/-! ### Documents, positions and rows -/

/-- The documents with their rows, as a roll. -/
def directory (s : MbfHybridSearchIndex) : List (String × ℕ) :=
  s.docs.map fun d => (d.entityId, d.rowId)

@[simp] theorem directory_fst (s : MbfHybridSearchIndex) :
    s.directory.map Prod.fst = s.entityIds := by
  rw [directory, List.map_map]
  rfl

@[simp] theorem directory_snd (s : MbfHybridSearchIndex) :
    s.directory.map Prod.snd = s.rowIds := by
  rw [directory, List.map_map]
  rfl

theorem nextRowId_eq (s : MbfHybridSearchIndex) :
    s.nextRowId = s.directory.length % 2 ^ 32 := by
  rw [nextRowId, directory, List.length_map]

/-- The positions are those of the documents, and the lists are in order. -/
structure WellKept (s : MbfHybridSearchIndex) : Prop where
  positions : Tracks s.entityIds s.entityPositions
  ascending : s.Ascending

/-- The rows lead to the documents: no two have one row, a filed row has a document, and a
document is filed under each of its tokens. -/
structure Sound (s : MbfHybridSearchIndex) : Prop where
  nodup : s.rowIds.Nodup
  present : ∀ r, s.Filed r → r ∈ s.rowIds
  tokens : ∀ d ∈ s.docs, ∀ t ∈ d.tokens, d.rowId ∈ s.fstLexicon.rows t

namespace WellKept
variable {s : MbfHybridSearchIndex}

theorem ensureFastLookupCache_eq (h : s.WellKept) : s.ensureFastLookupCache = s := by
  unfold ensureFastLookupCache
  split_ifs
  · have heq := (Tracks.rebuilt h.positions.nodup).unique h.positions
    rw [heq]
  · rfl

theorem document_at (h : s.WellKept) {e : String} {pos : ℕ}
    (hpos : s.entityPositions.lookup e = some pos) :
    ∃ d, s.docs[pos]? = some d ∧ d.entityId = e := by
  have he := (h.positions e pos).mp hpos
  rw [entityIds, List.getElem?_map] at he
  exact Option.map_eq_some_iff.mp he

theorem rowFor_of_new (h : s.WellKept) {doc : IndexedEntityDocument}
    (hnew : doc.entityId ∉ s.entityIds) : s.rowFor doc = doc.rowId := by
  rw [rowFor, h.positions.lookup_eq_none.mpr hnew]

end WellKept

theorem rowFor_of_present {s : MbfHybridSearchIndex} {doc d : IndexedEntityDocument} {pos : ℕ}
    (hpos : s.entityPositions.lookup doc.entityId = some pos) (hd : s.docs[pos]? = some d) :
    s.rowFor doc = d.rowId := by
  rw [rowFor, hpos]
  dsimp only
  rw [hd]
  rfl

/-- A call that leaves the roll of the documents as it is, and what is kept. -/
structure Amends (s s' : MbfHybridSearchIndex) : Prop where
  directory : s'.directory = s.directory
  kept : s.WellKept → s'.WellKept
  sound : s.Sound → s'.Sound

namespace Amends
variable {s s' s'' : MbfHybridSearchIndex}

theorem refl (s : MbfHybridSearchIndex) : Amends s s := ⟨rfl, id, id⟩

/-- One document changed in its place, and its row filed in more places. -/
theorem modify {d : IndexedEntityDocument} {pos : ℕ} (hd : s.docs[pos]? = some d)
    (hfiles : Files d.rowId s s') {g : IndexedEntityDocument → IndexedEntityDocument}
    (hid : ∀ a, (g a).entityId = a.entityId) (hrow : ∀ a, (g a).rowId = a.rowId)
    (htokens : ∀ t ∈ (g d).tokens, t ∈ d.tokens ∨ d.rowId ∈ s'.fstLexicon.rows t) :
    Amends s { s' with docs := s'.docs.modify pos g } := by
  have hids : (s'.docs.modify pos g).map IndexedEntityDocument.entityId = s.entityIds := by
    rw [map_modify hid, hfiles.docs]
    rfl
  have hrows : (s'.docs.modify pos g).map IndexedEntityDocument.rowId = s.rowIds := by
    rw [map_modify hrow, hfiles.docs]
    rfl
  constructor
  · unfold MbfHybridSearchIndex.directory
    dsimp only
    rw [map_modify (fun a => by rw [hid, hrow]), hfiles.docs]
  · intro h
    obtain ⟨hlexicon, hngrams, hphonetics, hcells⟩ := hfiles.ascending h.ascending
    refine ⟨?_, ⟨hlexicon, hngrams, hphonetics, hcells⟩⟩
    unfold entityIds
    dsimp only
    rw [hids, hfiles.positions]
    exact h.positions
  · intro h
    constructor
    · unfold rowIds
      dsimp only
      rw [hrows]
      exact h.nodup
    · intro r hr
      unfold rowIds
      dsimp only
      rw [hrows]
      rcases hfiles.only hr with hr | rfl
      · exact h.present r hr
      · exact List.mem_map_of_mem (List.mem_of_getElem? hd)
    · intro a ha t ht
      have hold : ∀ b ∈ s.docs, t ∈ b.tokens → b.rowId ∈ s'.fstLexicon.rows t :=
        fun b hb hbt => hfiles.lexicon.keeps _ _ (h.tokens b hb t hbt)
      dsimp only at ha
      rw [hfiles.docs] at ha
      rcases mem_modify ha with ha | ⟨b, hb, rfl⟩
      · exact hold a ha ht
      · rw [hd] at hb
        cases hb
        rw [hrow]
        rcases htokens t ht with ht | ht
        · exact hold d (List.mem_of_getElem? hd) ht
        · exact ht

end Amends

/-! ### Registration of a document -/

theorem indexDocument_eq [HybridScores] {s : MbfHybridSearchIndex} (h : s.WellKept)
    (doc : IndexedEntityDocument) :
    s.indexDocument doc = (s.fileDocument (s.rowFor doc) doc).storeDocument doc := by
  unfold indexDocument
  rw [h.ensureFastLookupCache_eq]
  rfl

/-- A document that its entity has is merged into. -/
theorem storeDocument_amends {s s' : MbfHybridSearchIndex} {doc d : IndexedEntityDocument} {pos : ℕ}
    (hpos : s.entityPositions.lookup doc.entityId = some pos) (hd : s.docs[pos]? = some d)
    (hfiles : Files d.rowId s s') (htokens : ∀ t ∈ doc.tokens, d.rowId ∈ s'.fstLexicon.rows t) :
    Amends s (s'.storeDocument doc) := by
  have hfound : s'.entityPositions.lookup doc.entityId = some pos := by
    rw [hfiles.positions]
    exact hpos
  unfold storeDocument
  rw [hfound]
  refine Amends.modify hd hfiles (fun _ => rfl) (fun _ => rfl) fun t ht => ?_
  exact (mem_tokens_merge ht).imp_right (htokens t)

section New
variable {s s' : MbfHybridSearchIndex} {doc : IndexedEntityDocument}

theorem storeDocument_of_new (h : s.WellKept) (hnew : doc.entityId ∉ s.entityIds)
    (hfiles : Files doc.rowId s s') :
    s'.storeDocument doc = { s' with
      docs := s.docs ++ [doc]
      entityPositions := s.entityPositions.insert doc.entityId s.docs.length } := by
  unfold storeDocument
  rw [hfiles.positions, h.positions.lookup_eq_none.mpr hnew, hfiles.docs]

theorem directory_storeDocument (h : s.WellKept) (hnew : doc.entityId ∉ s.entityIds)
    (hfiles : Files doc.rowId s s') :
    (s'.storeDocument doc).directory = s.directory ++ [(doc.entityId, doc.rowId)] := by
  rw [storeDocument_of_new h hnew hfiles, directory, List.map_append]
  rfl

theorem WellKept.storeDocument (h : s.WellKept) (hnew : doc.entityId ∉ s.entityIds)
    (hfiles : Files doc.rowId s s') : (s'.storeDocument doc).WellKept := by
  obtain ⟨hlexicon, hngrams, hphonetics, hcells⟩ := hfiles.ascending h.ascending
  rw [storeDocument_of_new h hnew hfiles]
  refine ⟨?_, ⟨hlexicon, hngrams, hphonetics, hcells⟩⟩
  have hlength : s.docs.length = s.entityIds.length := List.length_map _ |>.symm
  unfold entityIds
  dsimp only
  rw [List.map_append, hlength]
  exact h.positions.append hnew

/-- A new document under a row that no other document has. -/
theorem Sound.storeDocument (h : s.Sound) (hkept : s.WellKept) (hnew : doc.entityId ∉ s.entityIds)
    (hfiles : Files doc.rowId s s') (hfresh : doc.rowId ∉ s.rowIds)
    (htokens : ∀ t ∈ doc.tokens, doc.rowId ∈ s'.fstLexicon.rows t) :
    (s'.storeDocument doc).Sound := by
  rw [storeDocument_of_new hkept hnew hfiles]
  have hrows : (s.docs ++ [doc]).map IndexedEntityDocument.rowId = s.rowIds ++ [doc.rowId] :=
    List.map_append
  constructor
  · unfold rowIds
    dsimp only
    rw [hrows]
    refine List.nodup_append.mpr ⟨h.nodup, List.nodup_singleton _, fun a ha b hb hab => ?_⟩
    rw [List.mem_singleton] at hb
    rw [hab, hb] at ha
    exact hfresh ha
  · intro r hr
    unfold rowIds
    dsimp only
    rw [hrows, List.mem_append, List.mem_singleton]
    exact (hfiles.only hr).imp_left (h.present r)
  · intro a ha t ht
    rcases List.mem_append.mp ha with ha | ha
    · exact hfiles.lexicon.keeps _ _ (h.tokens a ha t ht)
    · rw [List.mem_singleton] at ha
      subst ha
      exact htokens t ht

end New

section Registered
variable [HybridScores] {s : MbfHybridSearchIndex} {doc : IndexedEntityDocument}

theorem indexDocument_amends (h : s.WellKept) (hmem : doc.entityId ∈ s.entityIds) :
    Amends s (s.indexDocument doc) := by
  cases hpos : s.entityPositions.lookup doc.entityId with
  | none => exact absurd hmem (h.positions.lookup_eq_none.mp hpos)
  | some pos =>
    obtain ⟨d, hd, _⟩ := h.document_at hpos
    rw [indexDocument_eq h, rowFor_of_present hpos hd]
    exact storeDocument_amends hpos hd (s.fileDocument_files _ doc)
      fun t ht => s.mem_rows_fileDocument _ ht

/-- A registered document is put on the roll. -/
theorem directory_indexDocument (h : s.WellKept) (hrow : doc.rowId = s.nextRowId) :
    (s.indexDocument doc).directory = Roll.enrol (2 ^ 32) s.directory doc.entityId := by
  by_cases hmem : doc.entityId ∈ s.entityIds
  · rw [Roll.enrol_of_mem (by rwa [directory_fst])]
    exact (indexDocument_amends h hmem).directory
  · rw [Roll.enrol_of_notMem (by rwa [directory_fst]), indexDocument_eq h, h.rowFor_of_new hmem,
      directory_storeDocument h hmem (s.fileDocument_files _ doc), hrow, nextRowId_eq]

theorem WellKept.indexDocument (h : s.WellKept) (doc : IndexedEntityDocument) :
    (s.indexDocument doc).WellKept := by
  by_cases hmem : doc.entityId ∈ s.entityIds
  · exact (indexDocument_amends h hmem).kept h
  · rw [indexDocument_eq h, h.rowFor_of_new hmem]
    exact h.storeDocument hmem (s.fileDocument_files _ doc)

theorem Sound.indexDocument (h : s.Sound) (hkept : s.WellKept) (hrow : doc.rowId = s.nextRowId)
    (hfresh : Roll.FreshFor (2 ^ 32) s.directory doc.entityId) : (s.indexDocument doc).Sound := by
  by_cases hmem : doc.entityId ∈ s.entityIds
  · exact (indexDocument_amends hkept hmem).sound h
  · rw [Roll.FreshFor, directory_fst, directory_snd, ← nextRowId_eq, ← hrow] at hfresh
    rw [indexDocument_eq hkept, hkept.rowFor_of_new hmem]
    exact h.storeDocument hkept hmem (s.fileDocument_files _ doc) (hfresh.resolve_left hmem)
      fun t ht => s.mem_rows_fileDocument _ ht

/-- The document of the entity is filed under the tokens that were registered. -/
theorem mem_rows_indexDocument (h : s.WellKept) {t : String} (ht : t ∈ doc.tokens) {pos : ℕ}
    {d : IndexedEntityDocument}
    (hpos : (s.indexDocument doc).entityPositions.lookup doc.entityId = some pos)
    (hd : (s.indexDocument doc).docs[pos]? = some d) :
    d.rowId ∈ (s.indexDocument doc).fstLexicon.rows t := by
  have hfiled : s.rowFor doc ∈ (s.indexDocument doc).fstLexicon.rows t := by
    have hrows := s.mem_rows_fileDocument (s.rowFor doc) ht
    rw [indexDocument_eq h]
    unfold storeDocument
    cases (s.fileDocument (s.rowFor doc) doc).entityPositions.lookup doc.entityId with
    | none => exact hrows
    | some _ => exact hrows
  suffices hrow : s.rowFor doc = d.rowId by rwa [hrow] at hfiled
  have hfiles := s.fileDocument_files (s.rowFor doc) doc
  rw [indexDocument_eq h] at hpos hd
  cases hold : s.entityPositions.lookup doc.entityId with
  | none =>
    have hnew := h.positions.lookup_eq_none.mp hold
    rw [h.rowFor_of_new hnew] at hfiles hpos hd ⊢
    rw [storeDocument_of_new h hnew hfiles] at hpos hd
    dsimp only at hpos hd
    rw [OrdMap.lookup_insert_self] at hpos
    cases hpos
    rw [List.getElem?_append_right (Nat.le_refl _), Nat.sub_self] at hd
    cases hd
    rfl
  | some place =>
    obtain ⟨a, ha, _⟩ := h.document_at hold
    rw [rowFor_of_present hold ha] at hfiles hpos hd ⊢
    unfold storeDocument at hpos hd
    rw [hfiles.positions, hold] at hpos hd
    dsimp only at hpos hd
    rw [hold] at hpos
    cases hpos
    rw [List.getElem?_modify, hfiles.docs, ha] at hd
    simp only [if_true, Option.map_eq_map, Option.map_some, Option.some.injEq] at hd
    rw [← hd]
    rfl

end Registered

/-! ### Amendments of a document -/

theorem setDocumentTitle_amends {s : MbfHybridSearchIndex} (h : s.WellKept) {entityId title : String}
    (htokens : ∀ pos d, s.entityPositions.lookup entityId = some pos → s.docs[pos]? = some d →
      ∀ t ∈ tokenizeNormalized title, d.rowId ∈ s.fstLexicon.rows t) :
    Amends s (s.setDocumentTitle entityId title) := by
  unfold setDocumentTitle
  rw [h.ensureFastLookupCache_eq]
  dsimp only
  cases hpos : s.entityPositions.lookup entityId with
  | none => exact .refl s
  | some pos =>
    obtain ⟨d, hd, _⟩ := h.document_at hpos
    refine Amends.modify hd (.refl d.rowId s) (fun _ => rfl) (fun _ => rfl) fun t ht => ?_
    rw [IndexedEntityDocument.mem_tokens] at ht ⊢
    rcases ht with ht | ht | ht
    · exact Or.inl (Or.inl ht)
    · exact Or.inr (htokens pos d hpos hd t ht)
    · exact Or.inl (Or.inr (Or.inr ht))

/-- A change of the document of an entity: made where there is one, and known to be made. -/
structure Places (s : MbfHybridSearchIndex) (entityId : String)
    (placed : MbfHybridSearchIndex × Bool) : Prop where
  made : placed.2 = true → entityId ∈ s.entityIds
  notMade : placed.2 = false → entityId ∉ s.entityIds
  amends : Amends s placed.1

theorem setDocumentEmbedding_places {s : MbfHybridSearchIndex} (h : s.WellKept) (entityId : String)
    (embedding : List F32) : Places s entityId (s.setDocumentEmbedding entityId embedding) := by
  unfold setDocumentEmbedding
  rw [h.ensureFastLookupCache_eq]
  dsimp only
  cases hpos : s.entityPositions.lookup entityId with
  | none =>
    exact ⟨fun hmade => absurd hmade Bool.false_ne_true,
      fun _ => h.positions.lookup_eq_none.mp hpos, .refl s⟩
  | some pos =>
    obtain ⟨d, hd, hid⟩ := h.document_at hpos
    rw [Option.bind_some, hd]
    refine ⟨fun _ => hid ▸ List.mem_map_of_mem (List.mem_of_getElem? hd),
      fun hmade => absurd hmade.symm Bool.false_ne_true, ?_⟩
    exact Amends.modify hd (s.fileEmbedding_files d.rowId (some embedding)) (fun _ => rfl)
      (fun _ => rfl) fun t ht => Or.inl ht

theorem setDocumentCoordinates_places [HybridScores] {s : MbfHybridSearchIndex} (h : s.WellKept)
    (entityId : String) (coords : F64 × F64) :
    Places s entityId (s.setDocumentCoordinates entityId coords) := by
  unfold setDocumentCoordinates
  rw [h.ensureFastLookupCache_eq]
  dsimp only
  cases hpos : s.entityPositions.lookup entityId with
  | none =>
    exact ⟨fun hmade => absurd hmade Bool.false_ne_true,
      fun _ => h.positions.lookup_eq_none.mp hpos, .refl s⟩
  | some pos =>
    obtain ⟨d, hd, hid⟩ := h.document_at hpos
    rw [Option.bind_some, hd]
    refine ⟨fun _ => hid ▸ List.mem_map_of_mem (List.mem_of_getElem? hd),
      fun hmade => absurd hmade.symm Bool.false_ne_true, ?_⟩
    exact Amends.modify hd (s.fileCoordinates_files d.rowId (some coords)) (fun _ => rfl)
      (fun _ => rfl) fun t ht => Or.inl ht

/-! ### Removal -/

theorem removeDocument_of_new {s : MbfHybridSearchIndex} (h : s.WellKept) {entityId : String}
    (hnew : entityId ∉ s.entityIds) : s.removeDocument entityId = s := by
  unfold removeDocument
  rw [h.ensureFastLookupCache_eq]
  dsimp only
  rw [h.positions.lookup_eq_none.mpr hnew]

section Removed
variable {s : MbfHybridSearchIndex} {entityId : String} {pos : ℕ} {removed : IndexedEntityDocument}

theorem removeDocument_of_present (h : s.WellKept)
    (hpos : s.entityPositions.lookup entityId = some pos) (hd : s.docs[pos]? = some removed) :
    s.removeDocument entityId = { s with
      docs := s.docs.eraseIdx pos
      entityPositions := (s.entityPositions.erase entityId).insertList
        (placesFrom ((s.docs.eraseIdx pos).map IndexedEntityDocument.entityId) pos)
      rabitqVectors := s.rabitqVectors.erase removed.rowId
      fstLexicon := s.fstLexicon.retain removed.rowId
      ngramBitmaps := s.ngramBitmaps.retain removed.rowId
      phoneticIndex := s.phoneticIndex.retain removed.rowId
      spatialMortonCells := s.spatialMortonCells.retain removed.rowId } := by
  unfold removeDocument
  rw [h.ensureFastLookupCache_eq]
  dsimp only
  rw [hpos]
  dsimp only
  rw [hd]

/-- A row that is filed after a removal was filed before, and is another one. -/
theorem Filed.of_removeDocument (h : s.WellKept)
    (hpos : s.entityPositions.lookup entityId = some pos) (hd : s.docs[pos]? = some removed) {r : ℕ}
    (hr : (s.removeDocument entityId).Filed r) : s.Filed r ∧ r ≠ removed.rowId := by
  rw [removeDocument_of_present h hpos hd] at hr
  rcases hr with ⟨k, hr⟩ | ⟨k, hr⟩ | ⟨k, hr⟩ | ⟨k, hr⟩ | hr
  · have hr := Postings.mem_rows_retain.mp hr
    exact ⟨Or.inl ⟨k, hr.1⟩, hr.2⟩
  · have hr := Postings.mem_rows_retain.mp hr
    exact ⟨Or.inr (Or.inl ⟨k, hr.1⟩), hr.2⟩
  · have hr := Postings.mem_rows_retain.mp hr
    exact ⟨Or.inr (Or.inr (Or.inl ⟨k, hr.1⟩)), hr.2⟩
  · have hr := Postings.mem_rows_retain.mp hr
    exact ⟨Or.inr (Or.inr (Or.inr (Or.inl ⟨k, hr.1⟩))), hr.2⟩
  · unfold OrdMap.contains at hr
    dsimp only at hr
    rw [OrdMap.lookup_erase] at hr
    split_ifs at hr with heq
    · cases hr
    · exact ⟨Or.inr (Or.inr (Or.inr (Or.inr hr))), heq⟩

end Removed

theorem WellKept.removeDocument {s : MbfHybridSearchIndex} (h : s.WellKept) (entityId : String) :
    (s.removeDocument entityId).WellKept := by
  cases hpos : s.entityPositions.lookup entityId with
  | none =>
    rw [removeDocument_of_new h (h.positions.lookup_eq_none.mp hpos)]
    exact h
  | some pos =>
    obtain ⟨d, hd, _⟩ := h.document_at hpos
    rw [removeDocument_of_present h hpos hd]
    refine ⟨?_, ⟨h.ascending.lexicon.retain _, h.ascending.ngrams.retain _,
      h.ascending.phonetics.retain _, h.ascending.cells.retain _⟩⟩
    unfold entityIds
    dsimp only
    rw [← List.eraseIdx_map]
    exact h.positions.remove hpos

theorem mem_entityIds_removeDocument {s : MbfHybridSearchIndex} (h : s.WellKept)
    {entityId e : String} :
    e ∈ (s.removeDocument entityId).entityIds ↔ e ∈ s.entityIds ∧ e ≠ entityId := by
  cases hpos : s.entityPositions.lookup entityId with
  | none =>
    have hnew := h.positions.lookup_eq_none.mp hpos
    rw [removeDocument_of_new h hnew]
    exact ⟨fun he => ⟨he, fun heq => hnew (heq ▸ he)⟩, And.left⟩
  | some pos =>
    obtain ⟨d, hd, _⟩ := h.document_at hpos
    have hat : s.entityIds[pos]? = some entityId := (h.positions entityId pos).mp hpos
    have hnodup : (s.entityIds.map id).Nodup := by
      rw [List.map_id]
      exact h.positions.nodup
    rw [removeDocument_of_present h hpos hd]
    unfold entityIds
    dsimp only
    rw [← List.eraseIdx_map]
    exact mem_eraseIdx_iff hnodup hat

theorem Sound.removeDocument {s : MbfHybridSearchIndex} (h : s.Sound) (hkept : s.WellKept)
    (entityId : String) : (s.removeDocument entityId).Sound := by
  cases hpos : s.entityPositions.lookup entityId with
  | none =>
    rw [removeDocument_of_new hkept (hkept.positions.lookup_eq_none.mp hpos)]
    exact h
  | some pos =>
    obtain ⟨removed, hd, _⟩ := hkept.document_at hpos
    have hdocs : (s.removeDocument entityId).docs = s.docs.eraseIdx pos := by
      rw [removeDocument_of_present hkept hpos hd]
    have hmem : ∀ d, d ∈ (s.removeDocument entityId).docs ↔ d ∈ s.docs ∧ d.rowId ≠ removed.rowId := by
      intro d
      rw [hdocs]
      exact mem_eraseIdx_iff h.nodup hd
    constructor
    · rw [rowIds, hdocs]
      exact h.nodup.sublist ((List.eraseIdx_sublist _ _).map _)
    · intro r hr
      obtain ⟨hfiled, hne⟩ := hr.of_removeDocument hkept hpos hd
      obtain ⟨d, hds, rfl⟩ := List.mem_map.mp (h.present r hfiled)
      exact List.mem_map_of_mem ((hmem d).mpr ⟨hds, hne⟩)
    · intro d hds t ht
      obtain ⟨hds, hne⟩ := (hmem d).mp hds
      rw [removeDocument_of_present hkept hpos hd]
      exact Postings.mem_rows_retain.mpr ⟨h.tokens d hds t ht, hne⟩

end MbfHybridSearchIndex
end MetriEngine.Search
