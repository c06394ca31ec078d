import MetriEngine.Storage.PaxWire

/-!
# Reading a zone makes it again

The secondary index lists, for a column and a value, the rows whose cell has it. Upserts enter a
row when they write its cells, a reader goes through the columns one after the other; both list
the rows in ascending order, so the index is the same. The symbols are interned in their order,
and the directory is built of the same chains.
-/
namespace MetriEngine.Storage.PaxMvcc
open Foundation Envelope MvccRowVersion

/-! ### The rows of a value -/

abbrev Avet := OrdMap (String ×ₗ String) (List ℕ)

def listed (avet : Avet) (a v : String) : List ℕ := (avet.lookup (toLex (a, v))).getD []

/-- The rows of a column whose cell has the value. -/
def rowsWith (cells : List MbfCellValue) (v : String) : List ℕ :=
  (List.range cells.length).filter fun r => (cells[r]?).bind canonicalValue = some v

theorem rowsWith_concat (cells : List MbfCellValue) (cell : MbfCellValue) (v : String) :
    rowsWith (cells ++ [cell]) v =
      rowsWith cells v ++ if canonicalValue cell = some v then [cells.length] else [] := by
  rw [rowsWith, List.length_append, List.length_singleton, List.range_succ, List.filter_append,
    rowsWith]
  congr 1
  · apply List.filter_congr
    intro r hr
    rw [List.getElem?_append_left (List.mem_range.mp hr)]
  · by_cases hv : canonicalValue cell = some v <;> simp [hv]

theorem listed_postCell (name : String) (avet : Avet) (entry : MbfCellValue × ℕ) (a v : String) :
    listed (postCell name avet entry) a v = listed avet a v ++
      if a = name ∧ canonicalValue entry.1 = some v then [entry.2 % 2 ^ 32] else [] := by
  rw [listed, postCell]
  cases hvalue : canonicalValue entry.1 with
  | none => simp [listed]
  | some value =>
    have hkey : toLex (a, v) = toLex (name, value) ↔ a = name ∧ some value = some v := by
      rw [toLex_inj, Prod.mk.injEq, Option.some_inj, eq_comm (a := v)]
    rw [OrdMap.lookup_insert]
    split_ifs with h1 h2 h2
    · rw [listed, h1]
      rfl
    · exact absurd (hkey.mp h1) h2
    · exact absurd (hkey.mpr h2) h1
    · exact (List.append_nil _).symm

theorem postCell_ne_nil {avet : Avet} (h : ∀ k, avet.lookup k ≠ some []) (name : String)
    (entry : MbfCellValue × ℕ) : ∀ k, (postCell name avet entry).lookup k ≠ some [] := by
  intro k
  rw [postCell]
  cases canonicalValue entry.1 with
  | none => exact h k
  | some value =>
    rw [OrdMap.lookup_insert]
    split_ifs with hk
    · simp
    · exact h k

theorem postColumn_concat (avet : Avet) (name : String) (cells : List MbfCellValue)
    (cell : MbfCellValue) : postColumn avet (name, cells ++ [cell]) =
      postCell name (postColumn avet (name, cells)) (cell, cells.length) := by
  simp only [postColumn, List.zipIdx_append, List.foldl_append, List.zipIdx_singleton,
    List.foldl_cons, List.foldl_nil, Nat.zero_add]

theorem postColumn_ne_nil {avet : Avet} (h : ∀ k, avet.lookup k ≠ some [])
    (col : String × List MbfCellValue) : ∀ k, (postColumn avet col).lookup k ≠ some [] := by
  obtain ⟨name, cells⟩ := col
  induction cells using List.reverseRecOn with
  | nil => exact h
  | append_singleton cells cell ih =>
    rw [postColumn_concat]
    exact postCell_ne_nil ih name _

theorem listed_postColumn (avet : Avet) {col : String × List MbfCellValue}
    (hlen : col.2.length ≤ 2 ^ 32) (a v : String) :
    listed (postColumn avet col) a v =
      listed avet a v ++ if a = col.1 then rowsWith col.2 v else [] := by
  obtain ⟨name, cells⟩ := col
  dsimp only at hlen ⊢
  induction cells using List.reverseRecOn with
  | nil =>
    rw [show rowsWith [] v = [] from rfl, ite_self, List.append_nil]
    rfl
  | append_singleton cells cell ih =>
    rw [List.length_append, List.length_singleton] at hlen
    rw [postColumn_concat, listed_postCell, ih (by omega), rowsWith_concat, List.append_assoc,
      Nat.mod_eq_of_lt (by omega)]
    congr 1
    by_cases ha : a = name <;> simp [ha]

theorem postColumns_ne_nil {avet : Avet} (h : ∀ k, avet.lookup k ≠ some [])
    (cols : List (String × List MbfCellValue)) :
    ∀ k, (cols.foldl postColumn avet).lookup k ≠ some [] := by
  induction cols generalizing avet with
  | nil => exact h
  | cons col cols ih => exact ih (postColumn_ne_nil h col)

theorem listed_postColumns_of_notMem (avet : Avet) {cols : List (String × List MbfCellValue)}
    (hlen : ∀ col ∈ cols, col.2.length ≤ 2 ^ 32) {a : String} (ha : a ∉ cols.map Prod.fst)
    (v : String) : listed (cols.foldl postColumn avet) a v = listed avet a v := by
  induction cols generalizing avet with
  | nil => rfl
  | cons col cols ih =>
    rw [List.map_cons, List.mem_cons, not_or] at ha
    rw [List.foldl_cons, ih _ (fun col hcol => hlen col (List.mem_cons_of_mem _ hcol)) ha.2,
      listed_postColumn avet (hlen col List.mem_cons_self), if_neg ha.1, List.append_nil]

theorem listed_postColumns_of_mem (avet : Avet) {cols : List (String × List MbfCellValue)}
    (hlen : ∀ col ∈ cols, col.2.length ≤ 2 ^ 32) (hnodup : (cols.map Prod.fst).Nodup) {a : String}
    {cells : List MbfCellValue} (ha : (a, cells) ∈ cols) (v : String) :
    listed (cols.foldl postColumn avet) a v = listed avet a v ++ rowsWith cells v := by
  induction cols generalizing avet with
  | nil => simp at ha
  | cons col cols ih =>
    have hrest : ∀ col ∈ cols, col.2.length ≤ 2 ^ 32 := fun col hcol =>
      hlen col (List.mem_cons_of_mem _ hcol)
    have hcol := listed_postColumn avet (hlen col List.mem_cons_self) a v
    rw [List.map_cons, List.nodup_cons] at hnodup
    rw [List.foldl_cons]
    rcases List.mem_cons.mp ha with rfl | ha
    · rw [listed_postColumns_of_notMem _ hrest hnodup.1, hcol, if_pos rfl]
    · have hne : a ≠ col.1 := by
        rintro rfl
        exact hnodup.1 (List.mem_map.mpr ⟨_, ha, rfl⟩)
      rw [ih _ hrest hnodup.2 ha, hcol, if_neg hne, List.append_nil]

/-! ### What upserts keep -/

/-- What is true of a zone between upserts. -/
structure Kept [FileDigests] (z : CompressedZone) : Prop where
  filled : z.Filled
  epochs : ∀ v ∈ z.mvccVersions, v.txAssertEpoch < 2 ^ 64 ∧ v.txRetractEpoch < 2 ^ 64
  rowIds : ∀ r v, z.mvccVersions[r]? = some v → v.rowId = r % 2 ^ 32
  chains : ∀ e, ∀ r ∈ z.rowsOf e, r < 2 ^ 32
  chains_ne : ∀ e, z.primaryKeyIndex.lookup e ≠ some []
  lists_ne : ∀ k, z.avetSecondaryIndex.lookup k ≠ some []
  lists : z.mvccVersions.length ≤ 2 ^ 32 → ∀ a v, z.postings a v =
    (List.range z.mvccVersions.length).filter fun r => canonicalValue (z.cell a r) = some v
  symbols : z.fsstTable.Coherent
  directory : EntityDirectory.buildFromMap z.primaryKeyIndex = some z.entityDirectory
  sameDirectory : z.directory = z.entityDirectory.toEliasFanoEntityDirectory

section Upserts
variable [FileDigests]

theorem kept_new (entityType : String) : Kept (.new entityType) where
  filled := fun a col h => absurd h (by simp [CompressedZone.new, PaxMvccZone.new])
  epochs := by simp [CompressedZone.new, PaxMvccZone.new]
  rowIds := fun r v h => by simp [CompressedZone.new, PaxMvccZone.new] at h
  chains := by simp [CompressedZone.new, PaxMvccZone.new, PaxMvccZone.rowsOf]
  chains_ne := by simp [CompressedZone.new, PaxMvccZone.new]
  lists_ne := by simp [CompressedZone.new, PaxMvccZone.new]
  lists := fun _ a v => rfl
  symbols := FsstSymbolTable.coherent_new
  directory := rfl
  sameDirectory := rfl

/-- The base of an upserted zone, from the parts that make it. -/
theorem exists_parts {z z' : PaxMvccZone} {entityId : String} {epochId row : ℕ}
    {attributes : AttributeMap} (h : z.upsertEntity entityId epochId attributes = some (z', row)) :
    z'.avetSecondaryIndex = (PaxMvccZone.storeAttributes row attributes.entries
        ((z.retractExisting entityId epochId).appendRow entityId epochId)).avetSecondaryIndex ∧
      z'.primaryKeyIndex = z.primaryKeyIndex.insert entityId (z.rowsOf entityId ++ [row]) ∧
      row < 2 ^ 32 := by
  rw [PaxMvccZone.upsertEntity] at h
  obtain ⟨directory, -, heq⟩ := Option.map_eq_some_iff.mp h
  cases heq
  refine ⟨rfl, ?_, Nat.mod_lt _ (by norm_num)⟩
  have hindex := PaxMvccZone.storeAttributes_frame (·.primaryKeyIndex) (fun _ _ _ => rfl)
    (z.retractExisting entityId epochId).newRowId attributes.entries
    ((z.retractExisting entityId epochId).appendRow entityId epochId)
  refine hindex.trans ?_
  rw [PaxMvccZone.appendRow]
  dsimp only
  rw [PaxMvccZone.retractExisting_primaryKeyIndex]
  rfl

omit [FileDigests] in
theorem storeAttributes_ne_nil {row : ℕ} (hrow : row < 2 ^ 32)
    (entries : List (String × MbfCellValue)) {z : PaxMvccZone}
    (h : ∀ k, z.avetSecondaryIndex.lookup k ≠ some []) :
    ∀ k, (PaxMvccZone.storeAttributes row entries z).avetSecondaryIndex.lookup k ≠ some [] := by
  induction entries generalizing z with
  | nil => exact h
  | cons attr entries ih =>
    apply ih
    have hpost : (PaxMvccZone.storeAttribute row z attr).avetSecondaryIndex =
        postCell attr.1 z.avetSecondaryIndex (attr.2, row) := by
      rw [postCell, Nat.mod_eq_of_lt hrow]
      rfl
    rw [hpost]
    exact postCell_ne_nil h attr.1 _

omit [FileDigests] in
theorem coherent_internValues {t : FsstSymbolTable} (h : t.Coherent)
    (entries : List (String × MbfCellValue)) : (entries.foldl internValue t).Coherent := by
  induction entries generalizing t with
  | nil => exact h
  | cons attr entries ih =>
    apply ih
    rw [internValue]
    cases attr.2 with
    | text s => exact h.internOrEscape s
    | _ => exact h

/-- The new row is listed under the values that its cells have. -/
theorem lists_upserted {z : PaxMvccZone} (hfilled : z.Filled)
    (hlists : ∀ a v, z.postings a v =
      (List.range z.mvccVersions.length).filter fun r => canonicalValue (z.cell a r) = some v)
    {u : Upsert} {z' : PaxMvccZone} (h : PaxMvccZone.Upserted z u.entityId u.epochId u.attributes z')
    (hlen : z.mvccVersions.length < 2 ^ 32) (a v : String) :
    z'.postings a v =
      (List.range (z.mvccVersions.length + 1)).filter fun r =>
        canonicalValue (z'.cell a r) = some v := by
  have hrow : z.newRowId = z.mvccVersions.length := Nat.mod_eq_of_lt hlen
  -- A column ends before the new row.
  have hpast : z.cell a z.mvccVersions.length = .null := by
    rw [PaxMvccZone.cell]
    cases hcol : z.columns.lookup a with
    | none => rfl
    | some col =>
      rw [Option.bind_some, List.getElem?_eq_none (hfilled a col hcol).le]
      rfl
  rw [h.postings, hlists, List.range_succ, List.filter_append, hrow]
  congr 1
  · apply List.filter_congr
    intro r hr
    have hne : r ≠ z.mvccVersions.length := (List.mem_range.mp hr).ne
    rw [h.cells, hrow, if_neg hne]
  · rw [List.filter_singleton, h.cells, hrow, if_pos rfl, hpast]
    cases u.attributes.get? a with
    | none => simp [canonicalValue]
    | some cell => by_cases hv : canonicalValue cell = some v <;> simp [hv]

namespace Kept
variable {z : CompressedZone}

/-- One upsert more always succeeds. -/
theorem exists_upserted (hz : Kept z) {u : Upsert} (hepoch : u.epochId < 2 ^ 64) :
    ∃ z', z.upsertEntity u = some z' ∧ Kept z' ∧
      z'.mvccVersions.length = z.mvccVersions.length + 1 := by
  obtain ⟨b, hup, hb⟩ :=
    PaxMvccZone.upsertEntity_upserted hz.filled u.entityId u.epochId u.attributes
  obtain ⟨havet, hindex, hrow⟩ := exists_parts hup
  have hne : ∀ e, b.primaryKeyIndex.lookup e ≠ some [] := by
    intro e
    rw [hindex, OrdMap.lookup_insert]
    split_ifs with he
    · simp
    · exact hz.chains_ne e
  obtain ⟨d, hd⟩ := EntityDirectory.buildFromMap_isSome fun e he hnil =>
    hne e.1 (hnil ▸ OrdMap.lookup_eq_some.mpr he)
  have hlen : b.mvccVersions.length = z.mvccVersions.length + 1 := by
    rw [hb.versions, List.length_append, List.length_singleton,
      PaxMvccZone.length_retractExisting]
  have hold : ∀ r : ℕ, (z.retractExisting u.entityId u.epochId).mvccVersions[r]? =
      (z.mvccVersions[r]?).map fun v =>
        if r ∈ z.rowsOf u.entityId then PaxMvccZone.ended u.epochId v else v := by
    intro r
    rw [PaxMvccZone.retractExisting_eq, PaxMvccZone.getElem?_foldl_retractRow]
  refine ⟨{ b with
    fsstTable := u.attributes.entries.foldl internValue z.fsstTable
    entityDirectory := d }, ?_, ?_, hlen⟩
  · rw [CompressedZone.upsertEntity, hup, Option.bind_some, hd]
    rfl
  constructor
  case filled => exact hb.filled
  case epochs =>
    intro v hv
    change v ∈ b.mvccVersions at hv
    rw [hb.versions, List.mem_append, List.mem_singleton] at hv
    rcases hv with hv | rfl
    · obtain ⟨r, hr⟩ := List.mem_iff_getElem?.mp hv
      rw [hold] at hr
      obtain ⟨w, hw, rfl⟩ := Option.map_eq_some_iff.mp hr
      have hepochs := hz.epochs w (List.mem_of_getElem? hw)
      rw [PaxMvccZone.ended]
      split_ifs
      · exact ⟨hepochs.1, hepoch⟩
      · exact hepochs
      · exact hepochs
    · exact ⟨hepoch, by norm_num [activeEpoch]⟩
  case rowIds =>
    intro r v hv
    change b.mvccVersions[r]? = some v at hv
    have hlenOld := PaxMvccZone.length_retractExisting z.toPaxMvccZone u.entityId u.epochId
    rw [hb.versions, List.getElem?_append] at hv
    split_ifs at hv with hr
    · rw [hold] at hv
      obtain ⟨w, hw, rfl⟩ := Option.map_eq_some_iff.mp hv
      have hid := hz.rowIds r w hw
      rw [PaxMvccZone.ended]
      split_ifs <;> exact hid
    · rw [List.getElem?_singleton] at hv
      split_ifs at hv with hzero
      cases hv
      have heq : r = z.mvccVersions.length := by omega
      rw [heq]
      rfl
  case chains =>
    intro e r hr
    change r ∈ b.rowsOf e at hr
    rw [hb.rows, List.mem_append] at hr
    rcases hr with hr | hr
    · exact hz.chains e r hr
    · split_ifs at hr with he
      · rw [List.mem_singleton.mp hr]
        exact hrow
      · simp at hr
  case chains_ne => exact hne
  case lists_ne =>
    change ∀ k, b.avetSecondaryIndex.lookup k ≠ some []
    rw [havet]
    apply storeAttributes_ne_nil hrow
    intro k
    rw [PaxMvccZone.appendRow]
    dsimp only
    rw [PaxMvccZone.retractExisting_avet]
    exact hz.lists_ne k
  case lists =>
    intro hfits a v
    change b.mvccVersions.length ≤ 2 ^ 32 at hfits
    change b.postings a v = (List.range b.mvccVersions.length).filter _
    rw [hlen] at hfits ⊢
    exact lists_upserted hz.filled (hz.lists (by omega)) hb (by omega) a v
  case symbols => exact coherent_internValues hz.symbols _
  case directory => exact hd
  case sameDirectory =>
    have hbase := (EntityDirectory.exists_fields hd).1
    rw [hb.directory] at hbase
    exact Option.some.inj hbase

end Kept

/-- Upserts never fail, and the zone they make is kept. -/
theorem exists_kept (entityType : String) (ups : List Upsert)
    (hepochs : ∀ u ∈ ups, u.epochId < 2 ^ 64) :
    ∃ z, (CompressedZone.new entityType).upsertAll ups = some z ∧ Kept z := by
  induction ups using List.reverseRecOn with
  | nil => exact ⟨_, rfl, kept_new entityType⟩
  | append_singleton ups u ih =>
    obtain ⟨z, hz, hkept⟩ := ih fun w hw => hepochs w (List.mem_append_left _ hw)
    obtain ⟨z', hup, hkept', -⟩ := hkept.exists_upserted (hepochs u (by simp))
    refine ⟨z', ?_, hkept'⟩
    rw [CompressedZone.upsertAll] at hz ⊢
    rw [List.foldlM_append, hz]
    simp [hup]

end Upserts

/-! ### What is written is read -/

/-- The lengths of the strings and vectors of a zone fit the four bytes that hold them. -/
structure LengthsFit (z : CompressedZone) : Prop where
  entityType : (utf8 z.entityType).length < 2 ^ 32
  versions : z.mvccVersions.length < 2 ^ 32
  entities : z.primaryKeyIndex.entries.length < 2 ^ 32
  chains : ∀ e ∈ z.primaryKeyIndex.entries, (utf8 e.1).length < 2 ^ 32 ∧ e.2.length < 2 ^ 32
  symbols : ∀ s ∈ z.fsstTable.symbols, (utf8 s).length < 2 ^ 32
  columns : z.columns.entries.length < 2 ^ 32
  cells : ∀ col ∈ z.columns.entries, (utf8 col.1).length < 2 ^ 32 ∧ ∀ cell ∈ col.2, cell.Fits

def CompressedZone.record (z : CompressedZone) : ZoneRecord :=
  ⟨z.entityType, z.mvccVersions, z.primaryKeyIndex.entries, z.fsstTable.symbols,
    z.columns.entries⟩

section Decoded
variable [FileDigests] {z : CompressedZone}

theorem Kept.column_length (hz : Kept z) {col : String × List MbfCellValue}
    (hcol : col ∈ z.columns.entries) : col.2.length = z.mvccVersions.length :=
  hz.filled col.1 col.2 (OrdMap.lookup_eq_some.mpr hcol)

theorem Kept.reads_zone [WireFormats] (hz : Kept z) (hfits : LengthsFit z) :
    Reads readZone z.zoneBytes z.record := by
  have hversions : ∀ v ∈ z.mvccVersions, Reads readVersion (writeVersion v) v := by
    intro v hv
    obtain ⟨r, hr⟩ := List.mem_iff_getElem?.mp hv
    obtain ⟨hassert, hretract⟩ := hz.epochs v hv
    have hrow : v.rowId < 2 ^ 32 := by
      rw [hz.rowIds r v hr]
      exact Nat.mod_lt _ (by norm_num)
    exact reads_version hrow hassert hretract
  have hchains : ∀ e ∈ z.primaryKeyIndex.entries, Reads readChain (writeChain e) e := by
    intro e he
    obtain ⟨hid, hlen⟩ := hfits.chains e he
    have hrows : z.rowsOf e.1 = e.2 := by
      rw [PaxMvccZone.rowsOf, OrdMap.lookup_eq_some.mpr he]
      rfl
    exact reads_chain hid hlen fun r hr => hz.chains e.1 r (hrows ▸ hr)
  have hcolumns : ∀ col ∈ z.columns.entries,
      Reads (readColumn z.fsstTable) (writeColumn z.fsstTable col) col := by
    intro col hcol
    obtain ⟨hname, hcells⟩ := hfits.cells col hcol
    apply reads_column hz.symbols hname _ hcells
    rw [hz.column_length hcol]
    exact hfits.versions
  have hsymbols : z.fsstTable.symbols.length < 2 ^ 32 := by
    have := hz.symbols.length
    omega
  refine (reads_text hfits.entityType).bind ?_
  refine (reads_u32 hfits.versions).bind ?_
  refine (reads_readMany _ hversions).bind ?_
  refine (reads_u32 hfits.entities).bind ?_
  refine (reads_readMany _ hchains).bind ?_
  refine (reads_u32 hsymbols).bind ?_
  refine (reads_readMany _ fun s hs => reads_text (hfits.symbols s hs)).bind ?_
  refine (reads_u32 hfits.columns).bind ?_
  rw [hz.symbols.internAll_symbols]
  exact (reads_readMany _ hcolumns).map fun columns =>
    (⟨z.entityType, z.mvccVersions, z.primaryKeyIndex.entries, z.fsstTable.symbols, columns⟩ :
      ZoneRecord)

/-! ### The parts that are made again -/

omit [FileDigests] in
theorem exists_words {versions : List MvccRowVersion} {words : Bitmap}
    (h : ∀ v ∈ versions, v.rowId / 64 < words.length) :
    ∃ words', versions.foldlM (fun words ver =>
      if ver.txRetractEpoch = activeEpoch then
        if ver.rowId / 64 < words.length then some (words.setBit ver.rowId) else none
      else some words) words = some words' := by
  induction versions generalizing words with
  | nil => exact ⟨words, rfl⟩
  | cons v versions ih =>
    have hrest : ∀ w ∈ versions, w.rowId / 64 < words.length := fun w hw =>
      h w (List.mem_cons_of_mem _ hw)
    rw [List.foldlM_cons]
    split_ifs with hactive hword
    · apply ih
      rw [Bitmap.length_setBit]
      exact hrest
    · exact absurd (h v List.mem_cons_self) hword
    · exact ih hrest

theorem Kept.exists_visibilityWords (hz : Kept z) :
    ∃ words, visibilityWords z.mvccVersions = some words := by
  apply exists_words
  intro v hv
  obtain ⟨r, hr⟩ := List.mem_iff_getElem?.mp hv
  have hlt := (List.getElem?_eq_some_iff.mp hr).1
  have hle : v.rowId ≤ r := by
    rw [hz.rowIds r v hr]
    exact Nat.mod_le _ _
  rw [List.length_replicate, mbfRowGroupSize]
  omega

/-- The columns give back the secondary index. -/
theorem Kept.avet_eq (hz : Kept z) (hlen : z.mvccVersions.length ≤ 2 ^ 32) :
    z.columns.entries.foldl postColumn ∅ = z.avetSecondaryIndex := by
  have hcols : ∀ col ∈ z.columns.entries, col.2.length ≤ 2 ^ 32 := fun col hcol =>
    (hz.column_length hcol).symm ▸ hlen
  apply OrdMap.ext_of_getD (postColumns_ne_nil (by simp) _) hz.lists_ne
  intro k
  obtain ⟨a, v⟩ := k
  change listed _ a v = z.postings a v
  rw [hz.lists hlen]
  cases hcol : z.columns.lookup a with
  | none =>
    have hnot : a ∉ z.columns.entries.map Prod.fst := by
      intro hmem
      obtain ⟨e, he, rfl⟩ := List.mem_map.mp hmem
      exact OrdMap.lookup_eq_none.mp hcol e.2 he
    rw [listed_postColumns_of_notMem _ hcols hnot]
    symm
    apply List.filter_eq_nil_iff.mpr
    intro r _
    simp [PaxMvccZone.cell, hcol, canonicalValue]
  | some cells =>
    have hmem := OrdMap.lookup_eq_some.mp hcol
    rw [listed_postColumns_of_mem _ hcols z.columns.keys_nodup hmem, rowsWith, hz.column_length hmem]
    change List.filter _ _ = _
    apply List.filter_congr
    intro r _
    rw [PaxMvccZone.cell, hcol, Option.bind_some]
    cases cells[r]? with
    | none => simp [canonicalValue]
    | some cell => rfl

theorem Kept.toZone_record (hz : Kept z) (hlen : z.mvccVersions.length ≤ 2 ^ 32) :
    ∃ words, z.record.toZone = some { z with activeVisibilityWords := words } := by
  obtain ⟨words, hwords⟩ := hz.exists_visibilityWords
  refine ⟨words, ?_⟩
  rw [ZoneRecord.toZone, CompressedZone.record]
  dsimp only
  rw [OrdMap.insertList_entries, OrdMap.insertList_entries, hwords, hz.directory, hz.avet_eq hlen,
    hz.symbols.internAll_symbols, hz.sameDirectory]
  rfl

end Decoded

/-! ### The round trip -/

/-- Two zones that hold the same and answer alike. -/
structure Agrees [FileDigests] (z' z : CompressedZone) : Prop where
  entityType : z'.entityType = z.entityType
  mvccVersions : z'.mvccVersions = z.mvccVersions
  primaryKeyIndex : z'.primaryKeyIndex = z.primaryKeyIndex
  columns : z'.columns = z.columns
  fsstTable : z'.fsstTable = z.fsstTable
  avetSecondaryIndex : z'.avetSecondaryIndex = z.avetSecondaryIndex
  directory : z'.directory = z.directory ∧ z'.entityDirectory = z.entityDirectory
  pullAsOf : ∀ entityId t, z'.pullAsOf entityId t = z.pullAsOf entityId t
  queryByAttributeValue : ∀ attrName valueStr t,
    z'.queryByAttributeValue attrName valueStr t = z.queryByAttributeValue attrName valueStr t
  visibleRowsAt : ∀ t, z'.visibleRowsAt t = z.visibleRowsAt t

/-- No read looks at the bitmap of active rows. -/
theorem agrees_of_words [FileDigests] (z : CompressedZone) (words : Bitmap) :
    Agrees { z with activeVisibilityWords := words } z where
  entityType := rfl
  mvccVersions := rfl
  primaryKeyIndex := rfl
  columns := rfl
  fsstTable := rfl
  avetSecondaryIndex := rfl
  directory := ⟨rfl, rfl⟩
  pullAsOf := fun _ _ => rfl
  queryByAttributeValue := fun _ _ _ => rfl
  visibleRowsAt := fun _ => rfl

/-- A zone made by upserts is read back from its bytes. -/
theorem zone_comes_back [FileDigests] [WireFormats] {entityType : String} {ups : List Upsert}
    {z : CompressedZone} (hepochs : ∀ u ∈ ups, u.epochId < 2 ^ 64)
    (hrun : (CompressedZone.new entityType).upsertAll ups = some z) (hfits : LengthsFit z) :
    ∃ z', decodeZoneBinary z.encodeZoneBinary = .ok (some z') ∧ Agrees z' z := by
  obtain ⟨w, hw, hz⟩ := exists_kept entityType ups hepochs
  rw [hrun] at hw
  cases hw
  obtain ⟨words, hwords⟩ := hz.toZone_record hfits.versions.le
  refine ⟨_, ?_, agrees_of_words z words⟩
  have hmagic : zone1Magic.length = 8 := by decide
  rw [decodeZoneBinary, CompressedZone.encodeZoneBinary, MbfPartitionWireSnapshot.padTo64,
    List.append_assoc, List.take_left' hmagic, List.drop_left' hmagic, if_neg,
    hz.reads_zone hfits]
  · exact congrArg Except.ok hwords
  · rintro (hlen | hne)
    · simp [CompressedZone.zoneBytes, hmagic, writeText, writeU32] at hlen
      omega
    · exact hne rfl

/-- Two orders with the same status, one with a cost. -/
def openOrders : List Upsert :=
  [⟨"WO-100", 1, [("status", .text "OPEN"), ("cost", .decimal128 ⟨-5, by decide⟩)], by decide⟩,
    ⟨"WO-101", 5, [("status", .text "OPEN")], by decide⟩]

theorem openOrders_isSome :
    (@CompressedZone.upsertAll orderDigests (.new "work_order") openOrders).isSome := by
  decide +kernel

def openZone : CompressedZone :=
  (@CompressedZone.upsertAll orderDigests (.new "work_order") openOrders).get openOrders_isSome

theorem open_orders_come_back :
    @CompressedZone.upsertAll orderDigests (.new "work_order") openOrders = some openZone ∧
      ∃ z', @decodeZoneBinary orderDigests .stored openZone.encodeZoneBinary = .ok (some z') ∧
        @Agrees orderDigests z' openZone :=
  ⟨(Option.some_get openOrders_isSome).symm,
    @zone_comes_back orderDigests .stored "work_order" openOrders openZone (by decide +kernel)
      (Option.some_get openOrders_isSome).symm
      ⟨by decide +kernel, by decide +kernel, by decide +kernel, by decide +kernel,
        by decide +kernel, by decide +kernel, by decide +kernel⟩⟩

end MetriEngine.Storage.PaxMvcc
