import MetriEngine.Storage.PaxMvcc

/-!
# What an upsert does to the rows

Each part of an upsert is described by what it makes of one row, one cell and one entry of the
secondary index: ending the versions of the entity, appending the row, storing its attributes.
-/
namespace MetriEngine.Storage.PaxMvcc
open Foundation Envelope

namespace PaxMvccZone

/-- The cell of a row in a column; a column that is not there holds nothing. -/
def cell (z : PaxMvccZone) (attrName : String) (r : ℕ) : MbfCellValue :=
  ((z.columns.lookup attrName).bind (·[r]?)).getD .null

/-- Every column has a cell for each row. -/
def Filled (z : PaxMvccZone) : Prop :=
  ∀ a col, z.columns.lookup a = some col → col.length = z.mvccVersions.length

def isActive (z : PaxMvccZone) (r : ℕ) : Bool :=
  (z.mvccVersions[r]?).any fun v => v.txRetractEpoch = MvccRowVersion.activeEpoch

/-- Bit `r` is set just when row `r` is active. -/
def BitsMatch (z : PaxMvccZone) : Prop := ∀ r, z.activeVisibilityWords.bit r = z.isActive r

def postings (z : PaxMvccZone) (attrName value : String) : List ℕ :=
  (z.avetSecondaryIndex.lookup (toLex (attrName, value))).getD []

def rowsOf (z : PaxMvccZone) (entityId : String) : List ℕ :=
  (z.primaryKeyIndex.lookup entityId).getD []

/-! ### Reading a row -/

/-- A pull looks through the rows of the entity, whichever of the two indexes it asks. -/
theorem pullAsOf_eq [FileDigests] {z : PaxMvccZone}
    (hbuild : EliasFanoEntityDirectory.buildFromMap z.primaryKeyIndex = some z.directory)
    (e : String) (t : ℕ) :
    z.pullAsOf e t = ((z.rowsOf e).reverse.find? (z.rowVisibleAt t)).map z.cellsOf := by
  rw [pullAsOf, EliasFanoEntityDirectory.lookupRows_or hbuild, rowsOf]
  cases z.primaryKeyIndex.lookup e <;> rfl

theorem lookup_cellsOf (z : PaxMvccZone) (r : ℕ) (a : String) :
    (z.cellsOf r).lookup a = (some (z.cell a r)).filter (· ≠ .null) := by
  rw [cellsOf, OrdMap.lookup_collect, cell]
  cases z.columns.lookup a with
  | none => rfl
  | some col =>
    rw [Option.bind_some, Option.bind_some]
    cases col[r]? <;> rfl

/-! ### Ending the version of an entity -/

/-- A field that no row's retraction touches is left as it was. -/
theorem foldl_retractRow_frame {β : Type} (f : PaxMvccZone → β) (epochId : ℕ)
    (hf : ∀ z r, f (retractRow epochId z r) = f z) (rows : List ℕ) (z : PaxMvccZone) :
    f (rows.foldl (retractRow epochId) z) = f z := by
  induction rows generalizing z with
  | nil => rfl
  | cons r rows ih => exact (ih _).trans (hf z r)

theorem retractExisting_eq (z : PaxMvccZone) (entityId : String) (epochId : ℕ) :
    z.retractExisting entityId epochId = (z.rowsOf entityId).foldl (retractRow epochId) z := by
  rw [retractExisting, rowsOf]
  cases z.primaryKeyIndex.lookup entityId <;> rfl

theorem retractExisting_primaryKeyIndex (z : PaxMvccZone) (entityId : String) (epochId : ℕ) :
    (z.retractExisting entityId epochId).primaryKeyIndex = z.primaryKeyIndex := by
  rw [retractExisting_eq]
  apply foldl_retractRow_frame
  intro z r
  rw [retractRow]
  split_ifs <;> rfl

theorem retractExisting_columns (z : PaxMvccZone) (entityId : String) (epochId : ℕ) :
    (z.retractExisting entityId epochId).columns = z.columns := by
  rw [retractExisting_eq]
  apply foldl_retractRow_frame
  intro z r
  rw [retractRow]
  split_ifs <;> rfl

theorem retractExisting_avet (z : PaxMvccZone) (entityId : String) (epochId : ℕ) :
    (z.retractExisting entityId epochId).avetSecondaryIndex = z.avetSecondaryIndex := by
  rw [retractExisting_eq]
  apply foldl_retractRow_frame
  intro z r
  rw [retractRow]
  split_ifs <;> rfl

/-- The version with its end at `epochId`, where it had none. -/
def ended (epochId : ℕ) (v : MvccRowVersion) : MvccRowVersion :=
  if v.txRetractEpoch = MvccRowVersion.activeEpoch then { v with txRetractEpoch := epochId } else v

theorem ended_ended (epochId : ℕ) (v : MvccRowVersion) :
    ended epochId (ended epochId v) = ended epochId v := by
  simp only [ended]
  split_ifs <;> simp_all

theorem mvccVersions_retractRow (epochId : ℕ) (z : PaxMvccZone) (r : ℕ) :
    (retractRow epochId z r).mvccVersions = z.mvccVersions.modify r (ended epochId) := by
  apply List.ext_getElem?
  intro q
  rw [List.getElem?_modify]
  by_cases hq : r = q
  · subst hq
    rw [retractRow]
    cases hv : z.mvccVersions[r]? with
    | none => simp [hv]
    | some v =>
      by_cases hend : v.txRetractEpoch = MvccRowVersion.activeEpoch <;> simp [hend, hv, ended]
  · rw [retractRow]
    split_ifs <;> simp [hq]

theorem getElem?_retractRow (epochId : ℕ) (z : PaxMvccZone) (r q : ℕ) :
    (retractRow epochId z r).mvccVersions[q]? =
      (z.mvccVersions[q]?).map fun v => if r = q then ended epochId v else v := by
  rw [mvccVersions_retractRow, List.getElem?_modify, Option.map_eq_map]

theorem getElem?_foldl_retractRow (epochId : ℕ) (rows : List ℕ) (z : PaxMvccZone) (q : ℕ) :
    (rows.foldl (retractRow epochId) z).mvccVersions[q]? =
      (z.mvccVersions[q]?).map fun v => if q ∈ rows then ended epochId v else v := by
  induction rows generalizing z with
  | nil => simp
  | cons r rows ih =>
    rw [List.foldl_cons, ih, getElem?_retractRow, Option.map_map]
    congr 1
    funext v
    by_cases hq : r = q
    · subst hq
      by_cases hmem : r ∈ rows <;> simp [hmem, ended_ended]
    · simp [hq, Ne.symm hq]

theorem length_retractExisting (z : PaxMvccZone) (entityId : String) (epochId : ℕ) :
    (z.retractExisting entityId epochId).mvccVersions.length = z.mvccVersions.length := by
  rw [retractExisting_eq]
  apply foldl_retractRow_frame fun z => z.mvccVersions.length
  intro z r
  rw [retractRow]
  split_ifs
  · exact List.length_modify ..
  · rfl

theorem BitsMatch.retractRow {z : PaxMvccZone} (hz : z.BitsMatch) {epochId : ℕ}
    (hepoch : epochId ≠ MvccRowVersion.activeEpoch) (r : ℕ) :
    (PaxMvccZone.retractRow epochId z r).BitsMatch := by
  intro q
  have hold := hz q
  rw [isActive] at hold
  rw [isActive, getElem?_retractRow, PaxMvccZone.retractRow]
  cases hv : z.mvccVersions[q]? with
  | none =>
    rw [hv] at hold
    by_cases hactive : (z.mvccVersions[r]?).any
        fun v => v.txRetractEpoch = MvccRowVersion.activeEpoch
    · rw [if_pos hactive, Bitmap.bit_clearBit, hold]
      rfl
    · rw [if_neg hactive, hold]
      rfl
  | some v =>
    rw [hv] at hold
    by_cases hq : r = q
    · subst hq
      by_cases hend : v.txRetractEpoch = MvccRowVersion.activeEpoch <;>
        simp [hv, hend, hold, ended, hepoch, Bitmap.bit_clearBit]
    · by_cases hactive : (z.mvccVersions[r]?).any
        fun v => v.txRetractEpoch = MvccRowVersion.activeEpoch
      · rw [if_pos hactive, Bitmap.bit_clearBit, hold]
        simp [hq, Ne.symm hq]
      · rw [if_neg hactive, hold]
        simp [hq]

theorem BitsMatch.retractExisting {z : PaxMvccZone} (hz : z.BitsMatch) {epochId : ℕ}
    (hepoch : epochId ≠ MvccRowVersion.activeEpoch) (entityId : String) :
    (z.retractExisting entityId epochId).BitsMatch := by
  rw [retractExisting_eq]
  generalize z.rowsOf entityId = rows
  induction rows generalizing z with
  | nil => exact hz
  | cons r rows ih => exact ih (hz.retractRow hepoch r)

/-! ### Appending the row -/

theorem BitsMatch.appendRow {z : PaxMvccZone} (hz : z.BitsMatch)
    (hlen : z.mvccVersions.length < 2 ^ 32) (entityId : String) (epochId : ℕ) :
    (z.appendRow entityId epochId).BitsMatch := by
  intro q
  have hrow : z.newRowId = z.mvccVersions.length := Nat.mod_eq_of_lt hlen
  have hold := hz q
  rw [isActive] at hold
  rw [isActive, PaxMvccZone.appendRow, Bitmap.bit_setBit, Bitmap.bit_grow, hold, hrow]
  · rw [List.getElem?_append]
    split_ifs with hq
    · simp [Nat.ne_of_lt hq]
    · rcases Nat.eq_or_lt_of_le (Nat.le_of_not_lt hq) with heq | hlt
      · simp [← heq]
      · have hne : q ≠ z.mvccVersions.length := by omega
        have hpast : q - z.mvccVersions.length ≠ 0 := by omega
        rw [List.getElem?_eq_none (Nat.le_of_lt hlt)]
        simp [hne, hpast]
  · rw [Bitmap.length_grow, List.length_append, List.length_singleton, hrow, mbfRowGroupSize]
    omega

theorem length_padColumn {n : ℕ} {col : List MbfCellValue} (h : col.length ≤ n) :
    (padColumn n col).length = n := by
  rw [padColumn, List.length_append, List.length_replicate]
  omega

/-- The cells behind the end of a column are empty, so filling it up changes none. -/
theorem getElem?_padColumn (n : ℕ) (col : List MbfCellValue) (r : ℕ) :
    ((padColumn n col)[r]?).getD .null = (col[r]?).getD .null := by
  rw [padColumn, List.getElem?_append]
  split_ifs with hr
  · rfl
  · rw [List.getElem?_replicate, List.getElem?_eq_none (Nat.le_of_not_lt hr)]
    split_ifs <;> rfl

theorem cell_appendRow (z : PaxMvccZone) (entityId : String) (epochId : ℕ) (a : String) (r : ℕ) :
    (z.appendRow entityId epochId).cell a r = z.cell a r := by
  rw [cell, cell, appendRow, OrdMap.lookup_mapValues]
  cases z.columns.lookup a with
  | none => rfl
  | some col => exact getElem?_padColumn _ col r

theorem Filled.appendRow {z : PaxMvccZone} (hz : z.Filled) (entityId : String) (epochId : ℕ) :
    (z.appendRow entityId epochId).Filled := by
  intro a col hcol
  rw [PaxMvccZone.appendRow, OrdMap.lookup_mapValues] at hcol
  obtain ⟨old, hold, rfl⟩ := Option.map_eq_some_iff.mp hcol
  apply length_padColumn
  rw [hz a old hold, List.length_append]
  exact Nat.le_add_right _ _

theorem rowsOf_appendRow (z : PaxMvccZone) (entityId e : String) (epochId : ℕ) :
    (z.appendRow entityId epochId).rowsOf e =
      z.rowsOf e ++ if e = entityId then [z.newRowId] else [] := by
  rw [rowsOf, appendRow, OrdMap.lookup_insert]
  split_ifs with he
  · rw [he]
    rfl
  · exact (List.append_nil _).symm

/-! ### Storing the attributes -/

theorem cell_storeAttribute {z : PaxMvccZone} (hz : z.Filled) {row : ℕ}
    (hrow : row < z.mvccVersions.length) (attr : String × MbfCellValue) (a : String) (r : ℕ) :
    (storeAttribute row z attr).cell a r =
      if a = attr.1 ∧ r = row then attr.2 else z.cell a r := by
  rw [cell, storeAttribute, OrdMap.lookup_insert]
  by_cases ha : a = attr.1
  · have hlen : (padColumn z.mvccVersions.length ((z.columns.lookup attr.1).getD
        (List.replicate z.mvccVersions.length .null))).length = z.mvccVersions.length := by
      apply length_padColumn
      cases hcol : z.columns.lookup attr.1 with
      | none => rw [Option.getD_none, List.length_replicate]
      | some col => exact (hz attr.1 col hcol).le
    rw [if_pos ha, Option.bind_some, List.getElem?_set]
    by_cases hr : row = r
    · rw [if_pos hr, if_pos (hlen.symm ▸ hrow : row < List.length _), if_pos ⟨ha, hr.symm⟩]
      rfl
    · rw [if_neg hr, if_neg (fun h => hr h.2.symm), getElem?_padColumn, cell, ha]
      cases z.columns.lookup attr.1 with
      | none =>
        rw [Option.getD_none, List.getElem?_replicate]
        split_ifs <;> rfl
      | some col => rfl
  · rw [if_neg ha, if_neg (fun h => ha h.1)]
    rfl

theorem Filled.storeAttribute {z : PaxMvccZone} (hz : z.Filled) (row : ℕ)
    (attr : String × MbfCellValue) : (PaxMvccZone.storeAttribute row z attr).Filled := by
  intro a col hcol
  rw [PaxMvccZone.storeAttribute, OrdMap.lookup_insert] at hcol
  split_ifs at hcol with ha
  · cases hcol
    rw [List.length_set]
    apply length_padColumn
    cases hold : z.columns.lookup attr.1 with
    | none => rw [Option.getD_none, List.length_replicate]
    | some col => exact (hz attr.1 col hold).le
  · exact hz a col hcol

theorem postings_storeAttribute (z : PaxMvccZone) (row : ℕ) (attr : String × MbfCellValue)
    (a v : String) :
    (storeAttribute row z attr).postings a v =
      z.postings a v ++ if a = attr.1 ∧ canonicalValue attr.2 = some v then [row] else [] := by
  rw [postings, storeAttribute]
  cases hvalue : canonicalValue attr.2 with
  | none => simp [postings]
  | some value =>
    have hkey : toLex (a, v) = toLex (attr.1, value) ↔ a = attr.1 ∧ some value = some v := by
      rw [toLex_inj, Prod.mk.injEq, Option.some_inj, eq_comm (a := v)]
    rw [OrdMap.lookup_insert]
    split_ifs with h1 h2 h2
    · rw [postings, h1]
      rfl
    · exact absurd (hkey.mp h1) h2
    · exact absurd (hkey.mpr h2) h1
    · exact (List.append_nil _).symm

theorem storeAttributes_frame {β : Type} (f : PaxMvccZone → β)
    (hf : ∀ z row attr, f (storeAttribute row z attr) = f z) (row : ℕ)
    (entries : List (String × MbfCellValue)) (z : PaxMvccZone) :
    f (storeAttributes row entries z) = f z := by
  induction entries generalizing z with
  | nil => rfl
  | cons attr entries ih => exact (ih _).trans (hf z row attr)

theorem Filled.storeAttributes {z : PaxMvccZone} (hz : z.Filled) (row : ℕ)
    (entries : List (String × MbfCellValue)) : (PaxMvccZone.storeAttributes row entries z).Filled := by
  induction entries generalizing z with
  | nil => exact hz
  | cons attr entries ih => exact ih (hz.storeAttribute row attr)

theorem lookup_eq_none_of_nodup {attr : String × MbfCellValue}
    {entries : List (String × MbfCellValue)} (hnd : ((attr :: entries).map Prod.fst).Nodup) :
    entries.lookup attr.1 = none := by
  rw [List.map_cons, List.nodup_cons] at hnd
  rw [List.lookup_eq_none_iff]
  intro entry hentry
  rw [bne_iff_ne]
  intro heq
  exact hnd.1 (heq ▸ List.mem_map_of_mem hentry)

theorem cell_storeAttributes {z : PaxMvccZone} (hz : z.Filled) {row : ℕ}
    (hrow : row < z.mvccVersions.length) {entries : List (String × MbfCellValue)}
    (hnd : (entries.map Prod.fst).Nodup) (a : String) (r : ℕ) :
    (storeAttributes row entries z).cell a r =
      if r = row then (entries.lookup a).getD (z.cell a r) else z.cell a r := by
  induction entries generalizing z with
  | nil => exact (ite_self _).symm
  | cons attr entries ih =>
    have hnone := lookup_eq_none_of_nodup hnd
    have hcell := cell_storeAttribute hz hrow attr a r
    refine (ih (hz.storeAttribute row attr) hrow (List.nodup_cons.mp hnd).2).trans ?_
    rw [hcell, List.lookup_cons]
    by_cases ha : a = attr.1
    · by_cases hr : r = row <;> simp [ha, hr, hnone]
    · simp [ha, beq_false_of_ne ha]

theorem postings_storeAttributes (z : PaxMvccZone) (row : ℕ) {entries : List (String × MbfCellValue)}
    (hnd : (entries.map Prod.fst).Nodup) (a v : String) :
    (storeAttributes row entries z).postings a v =
      z.postings a v ++ if (entries.lookup a).bind canonicalValue = some v then [row] else [] := by
  induction entries generalizing z with
  | nil => exact (List.append_nil _).symm
  | cons attr entries ih =>
    have hnone := lookup_eq_none_of_nodup hnd
    refine (ih _ (List.nodup_cons.mp hnd).2).trans ?_
    rw [postings_storeAttribute, List.lookup_cons]
    by_cases ha : a = attr.1
    · simp [ha, hnone]
    · simp [ha, beq_false_of_ne ha]

/-! ### The whole upsert -/

/-- What an upsert leaves, structure by structure. -/
structure Upserted [FileDigests] (z : PaxMvccZone) (entityId : String) (epochId : ℕ)
    (attributes : AttributeMap) (z' : PaxMvccZone) : Prop where
  versions : z'.mvccVersions = (z.retractExisting entityId epochId).mvccVersions ++
    [⟨z.newRowId, epochId, MvccRowVersion.activeEpoch⟩]
  rows : ∀ e, z'.rowsOf e = z.rowsOf e ++ if e = entityId then [z.newRowId] else []
  bits : z.BitsMatch → epochId ≠ MvccRowVersion.activeEpoch →
    z.mvccVersions.length < 2 ^ 32 → z'.BitsMatch
  filled : z'.Filled
  cells : ∀ a r, z'.cell a r =
    if r = z.newRowId then (attributes.get? a).getD (z.cell a r) else z.cell a r
  postings : ∀ a v, z'.postings a v = z.postings a v ++
    if (attributes.get? a).bind canonicalValue = some v then [z.newRowId] else []
  directory : EliasFanoEntityDirectory.buildFromMap z'.primaryKeyIndex = some z'.directory

/-- An upsert always comes to its end. -/
theorem upsertEntity_upserted [FileDigests] {z : PaxMvccZone} (hz : z.Filled) (entityId : String)
    (epochId : ℕ) (attributes : AttributeMap) :
    ∃ z', z.upsertEntity entityId epochId attributes = some (z', z.newRowId) ∧
      Upserted z entityId epochId attributes z' := by
  set retracted := z.retractExisting entityId epochId with hretracted
  have hlen : retracted.mvccVersions.length = z.mvccVersions.length :=
    length_retractExisting z entityId epochId
  have hrow : retracted.newRowId = z.newRowId := by rw [newRowId, hlen, newRowId]
  have hfilled : retracted.Filled := by
    intro a col hcol
    rw [hretracted, retractExisting_columns] at hcol
    rw [hz a col hcol, hlen]
  set appended := retracted.appendRow entityId epochId with happended
  have hafilled : appended.Filled := hfilled.appendRow entityId epochId
  have halen : z.newRowId < appended.mvccVersions.length := by
    rw [happended, appendRow, List.length_append, List.length_singleton, hlen, newRowId]
    exact Nat.lt_succ_of_le (Nat.mod_le _ _)
  set stored := storeAttributes z.newRowId attributes.entries appended with hstored
  have hversions : stored.mvccVersions = appended.mvccVersions :=
    storeAttributes_frame (·.mvccVersions) (fun _ _ _ => rfl) ..
  have hindex : stored.primaryKeyIndex = appended.primaryKeyIndex :=
    storeAttributes_frame (·.primaryKeyIndex) (fun _ _ _ => rfl) ..
  have hwords : stored.activeVisibilityWords = appended.activeVisibilityWords :=
    storeAttributes_frame (·.activeVisibilityWords) (fun _ _ _ => rfl) ..
  obtain ⟨d, hd⟩ := Option.isSome_iff_exists.mp
    (EliasFanoEntityDirectory.buildFromMap_isSome stored.primaryKeyIndex)
  refine ⟨{ stored with directory := d }, ?_, ?_⟩
  · rw [upsertEntity, ← hretracted, hrow, ← happended, ← hstored, hd]
    rfl
  · constructor
    case versions =>
      change stored.mvccVersions = _
      rw [hversions, happended, appendRow, hrow]
    case rows =>
      intro e
      change (stored.primaryKeyIndex.lookup e).getD [] = _
      rw [hindex]
      change appended.rowsOf e = _
      rw [happended, rowsOf_appendRow, hrow, rowsOf, hretracted, retractExisting_primaryKeyIndex,
        rowsOf]
    case bits =>
      intro hbits hepoch hfits r
      change stored.activeVisibilityWords.bit r = stored.isActive r
      rw [hwords, isActive, hversions]
      exact (hbits.retractExisting hepoch entityId).appendRow (hlen ▸ hfits) entityId epochId r
    case filled => exact hafilled.storeAttributes z.newRowId attributes.entries
    case cells =>
      intro a r
      change stored.cell a r = _
      rw [hstored, cell_storeAttributes hafilled halen attributes.distinct, happended,
        cell_appendRow, cell, hretracted, retractExisting_columns]
      rfl
    case postings =>
      intro a v
      change stored.postings a v = _
      rw [hstored, postings_storeAttributes _ _ attributes.distinct]
      congr 1
      change (retracted.avetSecondaryIndex.lookup _).getD [] = _
      rw [hretracted, retractExisting_avet, postings]
    case directory => exact hd

end PaxMvccZone
end MetriEngine.Storage.PaxMvcc
