import MetriEngine.Storage.PaxRows

/-!
# Time travel in the columnar zone

After any upserts the rows, the columns, the secondary index and the bitmap are what the list of
the upserts says: row `r` is the `r`-th upsert, and it is seen from its own epoch to that of the
next upsert of its entity. The epoch that marks an active row is no epoch to look at.
-/
namespace MetriEngine.Storage.PaxMvcc
open Foundation Envelope MvccRowVersion

structure Upsert where
  entityId : String
  epochId : ℕ
  attributes : AttributeMap

namespace PaxMvccZone

/-- The zone after the upserts, one after the other. -/
def upsertAll [FileDigests] (z : PaxMvccZone) (ups : List Upsert) : Option PaxMvccZone :=
  ups.foldlM (fun z u => (z.upsertEntity u.entityId u.epochId u.attributes).map Prod.fst) z

end PaxMvccZone

/-! ### What the upserts say -/

/-- The epoch of the first upsert of an entity behind the `r`-th, or the mark of an active row. -/
def retractEpoch (ups : List Upsert) (r : ℕ) (entityId : String) : ℕ :=
  ((ups.drop (r + 1)).find? fun u => u.entityId = entityId).elim activeEpoch (·.epochId)

def versionOf (ups : List Upsert) (r : ℕ) (u : Upsert) : MvccRowVersion :=
  ⟨r, u.epochId, retractEpoch ups r u.entityId⟩

def givenCell (ups : List Upsert) (attrName : String) (r : ℕ) : MbfCellValue :=
  ((ups[r]?).bind fun u => u.attributes.get? attrName).getD .null

/-- A further upsert of the entity ends its last version. -/
theorem retractEpoch_concat {ups : List Upsert} {r : ℕ} (hr : r < ups.length) (u : Upsert)
    (e : String) (hepochs : ∀ u ∈ ups, u.epochId < activeEpoch) :
    retractEpoch (ups ++ [u]) r e =
      if retractEpoch ups r e = activeEpoch ∧ u.entityId = e then u.epochId
      else retractEpoch ups r e := by
  rw [retractEpoch, List.drop_append_of_le_length hr, List.find?_append, retractEpoch]
  cases hfind : (ups.drop (r + 1)).find? fun u => u.entityId = e with
  | none => by_cases he : u.entityId = e <;> simp [he]
  | some w =>
    have hw := hepochs w (List.mem_of_mem_drop (List.mem_of_find?_eq_some hfind))
    simp [hw.ne]

theorem getElem?_concat_of_lt {ups : List Upsert} {r : ℕ} (hr : r < ups.length) (u : Upsert) :
    (ups ++ [u])[r]? = ups[r]? := List.getElem?_append_left hr

/-- A list over the rows after one more upsert: the old rows, and the new one if it belongs. -/
theorem filter_range_concat {ups : List Upsert} (u : Upsert) (p q : ℕ → Bool)
    (hold : ∀ r < ups.length, q r = p r) :
    (List.range (ups ++ [u]).length).filter q =
      (List.range ups.length).filter p ++ if q ups.length then [ups.length] else [] := by
  rw [List.length_append, List.length_singleton, List.range_succ, List.filter_append]
  congr 1
  · exact List.filter_congr fun r hr => hold r (List.mem_range.mp hr)
  · cases h : q ups.length <;> simp [h]

/-- The zone holds what the upserts say, each structure on its own. -/
structure Holds [FileDigests] (z : PaxMvccZone) (ups : List Upsert) : Prop where
  epochs : ∀ u ∈ ups, u.epochId < activeEpoch
  versions : ∀ r : ℕ, z.mvccVersions[r]? = (ups[r]?).map (versionOf ups r)
  rows : ∀ e, z.rowsOf e =
    (List.range ups.length).filter fun r => (ups[r]?).any fun u => u.entityId = e
  bits : z.BitsMatch
  filled : z.Filled
  cells : ∀ a r, z.cell a r = givenCell ups a r
  postings : ∀ a v, z.postings a v =
    (List.range ups.length).filter fun r => canonicalValue (givenCell ups a r) = some v
  directory : EliasFanoEntityDirectory.buildFromMap z.primaryKeyIndex = some z.directory

variable [FileDigests]

theorem Holds.length {z : PaxMvccZone} {ups : List Upsert} (hz : Holds z ups) :
    z.mvccVersions.length = ups.length := by
  apply Nat.le_antisymm
  · have h := hz.versions ups.length
    rw [List.getElem?_eq_none le_rfl, Option.map_none, List.getElem?_eq_none_iff] at h
    exact h
  · have h := hz.versions z.mvccVersions.length
    rw [List.getElem?_eq_none le_rfl, eq_comm, Option.map_eq_none_iff,
      List.getElem?_eq_none_iff] at h
    exact h

theorem holds_new (entityType : String) : Holds (.new entityType) [] where
  epochs := by simp
  versions := fun r => rfl
  rows := fun e => rfl
  bits := fun r => rfl
  filled := fun a col h => absurd h (by simp [PaxMvccZone.new])
  cells := fun a r => rfl
  postings := fun a v => rfl
  directory := rfl

namespace Holds
variable {z : PaxMvccZone} {ups : List Upsert}

/-- A row is in the chain of an entity when its upsert is one of the entity. -/
theorem mem_rowsOf (hz : Holds z ups) {r : ℕ} {e : String} :
    r ∈ z.rowsOf e ↔ ∃ u, ups[r]? = some u ∧ u.entityId = e := by
  rw [hz.rows, List.mem_filter, List.mem_range]
  cases hu : ups[r]? with
  | none => simp
  | some u =>
    have hr : r < ups.length := (List.getElem?_eq_some_iff.mp hu).1
    simp [hr]

theorem versions_retractExisting (hz : Holds z ups) (u : Upsert) (r : ℕ) :
    (z.retractExisting u.entityId u.epochId).mvccVersions[r]? =
      (ups[r]?).map (versionOf (ups ++ [u]) r) := by
  rw [PaxMvccZone.retractExisting_eq, PaxMvccZone.getElem?_foldl_retractRow, hz.versions]
  cases hw : ups[r]? with
  | none => rfl
  | some w =>
    have hr : r < ups.length := (List.getElem?_eq_some_iff.mp hw).1
    have hmem : r ∈ z.rowsOf u.entityId ↔ u.entityId = w.entityId := by
      rw [hz.mem_rowsOf]
      simp [hw, eq_comm]
    rw [Option.map_some, Option.map_some, Option.map_some, versionOf, versionOf,
      retractEpoch_concat hr u w.entityId hz.epochs]
    simp only [hmem]
    by_cases he : u.entityId = w.entityId <;>
      by_cases hend : retractEpoch ups r w.entityId = activeEpoch <;>
      simp [PaxMvccZone.ended, he, hend]

/-- One upsert more, with a row number that still fits. -/
theorem concat (hz : Holds z ups) (u : Upsert) (hepoch : u.epochId < activeEpoch)
    (hlen : ups.length < 2 ^ 32) :
    ∃ z', z.upsertEntity u.entityId u.epochId u.attributes = some (z', ups.length) ∧
      Holds z' (ups ++ [u]) := by
  obtain ⟨z', hup, hz'⟩ :=
    PaxMvccZone.upsertEntity_upserted hz.filled u.entityId u.epochId u.attributes
  have hrow : z.newRowId = ups.length := by
    rw [PaxMvccZone.newRowId, hz.length]
    exact Nat.mod_eq_of_lt hlen
  have hrlen : (z.retractExisting u.entityId u.epochId).mvccVersions.length = ups.length := by
    rw [PaxMvccZone.length_retractExisting, hz.length]
  refine ⟨z', hrow ▸ hup, ?_⟩
  constructor
  case epochs =>
    intro w hw
    rcases List.mem_append.mp hw with hw | hw
    · exact hz.epochs w hw
    · rw [List.mem_singleton.mp hw]
      exact hepoch
  case versions =>
    intro r
    rw [hz'.versions, hrow]
    by_cases hr : r < ups.length
    · rw [List.getElem?_append_left (hrlen ▸ hr), hz.versions_retractExisting,
        getElem?_concat_of_lt hr]
    · rw [List.getElem?_append_right (by omega), List.getElem?_append_right (by omega), hrlen]
      cases hk : r - ups.length with
      | zero =>
        have hr : r = ups.length := by omega
        simp [versionOf, retractEpoch, hr]
      | succ k => rfl
  case rows =>
    intro e
    rw [hz'.rows, hrow, hz.rows,
      filter_range_concat u (fun r => (ups[r]?).any fun u => u.entityId = e)]
    · simp [eq_comm]
    · intro r hr
      rw [getElem?_concat_of_lt hr]
  case bits => exact hz'.bits hz.bits hepoch.ne (hz.length ▸ hlen)
  case filled => exact hz'.filled
  case cells =>
    intro a r
    rw [hz'.cells, hrow, hz.cells, givenCell, givenCell]
    by_cases hr : r = ups.length
    · subst hr
      simp
    · rw [if_neg hr]
      rcases Nat.lt_or_gt_of_ne hr with hlt | hgt
      · rw [getElem?_concat_of_lt hlt]
      · rw [List.getElem?_eq_none (by omega), List.getElem?_eq_none (by simp; omega)]
  case postings =>
    intro a v
    rw [hz'.postings, hrow, hz.postings,
      filter_range_concat u (fun r => canonicalValue (givenCell ups a r) = some v)]
    · cases hget : u.attributes.get? a <;> simp [givenCell, hget, canonicalValue]
    · intro r hr
      rw [givenCell, getElem?_concat_of_lt hr, ← givenCell]
  case directory => exact hz'.directory

end Holds

/-- After any upserts whose rows can be numbered the zone holds them. -/
theorem exists_holds (entityType : String) (ups : List Upsert)
    (hepochs : ∀ u ∈ ups, u.epochId < activeEpoch) (hrows : ups.length ≤ 2 ^ 32) :
    ∃ z, (PaxMvccZone.new entityType).upsertAll ups = some z ∧ Holds z ups := by
  induction ups using List.reverseRecOn with
  | nil => exact ⟨_, rfl, holds_new entityType⟩
  | append_singleton ups u ih =>
    rw [List.length_append, List.length_singleton] at hrows
    obtain ⟨z, hz, hold⟩ := ih
      (fun w hw => hepochs w (List.mem_append_left _ hw)) (by omega)
    obtain ⟨z', hup, hold'⟩ := hold.concat u (hepochs u (by simp)) (by omega)
    refine ⟨z', ?_, hold'⟩
    rw [PaxMvccZone.upsertAll] at hz ⊢
    rw [List.foldlM_append, hz]
    simp [hup]

/-! ### Looking at an epoch -/

omit [FileDigests] in
/-- Over epochs that never fall, the first member of a kind comes before all the others. -/
theorem lt_find?_iff {us : List Upsert} (hsorted : us.Pairwise fun u v => u.epochId ≤ v.epochId)
    {t : ℕ} (ht : t < activeEpoch) (e : String) :
    t < (us.find? fun u => u.entityId = e).elim activeEpoch (·.epochId) ↔
      ∀ v ∈ us, v.entityId = e → t < v.epochId := by
  induction us with
  | nil => simpa using ht
  | cons u us ih =>
    have hhead := (List.pairwise_cons.mp hsorted).1
    rw [List.find?_cons]
    by_cases he : u.entityId = e
    · simp only [he, decide_true, Option.elim_some]
      constructor
      · intro hlt v hv _
        rcases List.mem_cons.mp hv with rfl | hv
        · exact hlt
        · exact hlt.trans_le (hhead v hv)
      · intro h
        exact h u List.mem_cons_self he
    · simp only [he, decide_false, List.mem_cons, forall_eq_or_imp, false_implies, true_and]
      exact ih hsorted.of_cons

/-- The `r`-th upsert is one at or before `t`, and the later ones of its entity come after `t`. -/
def IsLastAt (ups : List Upsert) (t r : ℕ) (u : Upsert) : Prop :=
  ups[r]? = some u ∧ u.epochId ≤ t ∧
    ∀ (j : ℕ) (v : Upsert), r < j → ups[j]? = some v → v.entityId = u.entityId → t < v.epochId

/-- The last upsert of an entity at or before an epoch. -/
def lastUpsertAt (ups : List Upsert) (e : String) (t : ℕ) : Option Upsert :=
  ups.reverse.find? fun u => u.entityId = e ∧ u.epochId ≤ t

omit [FileDigests] in
theorem IsLastAt.unique {ups : List Upsert} {t r r' : ℕ} {u u' : Upsert}
    (h : IsLastAt ups t r u) (h' : IsLastAt ups t r' u') (he : u.entityId = u'.entityId) :
    r = r' := by
  rcases Nat.lt_trichotomy r r' with hlt | heq | hgt
  · exact absurd h'.2.1 (Nat.not_le_of_lt (h.2.2 r' u' hlt h'.1 he.symm))
  · exact heq
  · exact absurd h.2.1 (Nat.not_le_of_lt (h'.2.2 r u hgt h.1 he))

omit [FileDigests] in
theorem lastUpsertAt_eq_some {ups : List Upsert} {e : String} {t : ℕ} {u : Upsert} :
    lastUpsertAt ups e t = some u ↔ u.entityId = e ∧ ∃ r, IsLastAt ups t r u := by
  rw [lastUpsertAt, List.find?_eq_some_iff_append]
  constructor
  · rintro ⟨hu, later, earlier, hsplit, hlater⟩
    obtain ⟨he, hepoch⟩ := of_decide_eq_true hu
    have hups : ups = earlier.reverse ++ u :: later.reverse := by
      rw [← List.reverse_reverse ups, hsplit]
      simp
    refine ⟨he, earlier.reverse.length, ?_, hepoch, ?_⟩
    · rw [hups, List.getElem?_append_right le_rfl, Nat.sub_self]
      rfl
    · intro j v hj hv hve
      rw [hups, List.getElem?_append_right hj.le] at hv
      obtain ⟨k, hk⟩ := Nat.exists_eq_add_of_lt hj
      rw [hk, show earlier.reverse.length + k + 1 - earlier.reverse.length = k + 1 by omega,
        List.getElem?_cons_succ] at hv
      have hmiss := hlater v (List.mem_reverse.mp (List.mem_of_getElem? hv))
      simpa [hve, he] using hmiss
  · rintro ⟨he, r, hu, hepoch, hlater⟩
    obtain ⟨hr, rfl⟩ := List.getElem?_eq_some_iff.mp hu
    have hsplit : ups = ups.take r ++ ups[r] :: ups.drop (r + 1) := by
      rw [← List.drop_eq_getElem_cons hr, List.take_append_drop]
    refine ⟨by simp [he, hepoch], (ups.drop (r + 1)).reverse, (ups.take r).reverse, ?_, ?_⟩
    · conv_lhs => rw [hsplit]
      simp
    · intro v hv
      obtain ⟨k, hk⟩ := List.mem_iff_getElem?.mp (List.mem_reverse.mp hv)
      rw [List.getElem?_drop] at hk
      by_cases hve : v.entityId = e
      · have := hlater (r + 1 + k) v (by omega) hk (hve.trans he.symm)
        simpa [hve] using this
      · simp [hve]

omit [FileDigests] in
/-- Members that carry their own position are filtered by filtering the positions. -/
theorem map_filter_eq_filter_range {α : Type} {l : List α} {f : α → ℕ} (p : α → Bool)
    (hf : ∀ (r : ℕ) (v : α), l[r]? = some v → f v = r) :
    (l.filter p).map f = (List.range l.length).filter fun r => (l[r]?).any p := by
  induction l using List.reverseRecOn with
  | nil => rfl
  | append_singleton l v ih =>
    have hold (r : ℕ) (w : α) (hw : l[r]? = some w) : f w = r := by
      apply hf r w
      rw [List.getElem?_append_left (List.getElem?_eq_some_iff.mp hw).1, hw]
    have hlast : f v = l.length := hf l.length v (by simp)
    rw [List.filter_append, List.map_append, ih hold, List.length_append, List.length_singleton,
      List.range_succ, List.filter_append]
    congr 1
    · apply List.filter_congr
      intro r hr
      rw [List.getElem?_append_left (List.mem_range.mp hr)]
    · cases hp : p v <;> simp [hp, hlast]

namespace Holds
variable {z : PaxMvccZone} {ups : List Upsert} {t : ℕ}

/-- A row is seen when its upsert is the last one of its entity. -/
theorem rowVisibleAt_iff (hz : Holds z ups)
    (hsorted : ups.Pairwise fun u v => u.epochId ≤ v.epochId) (ht : t < activeEpoch) {r : ℕ} :
    z.rowVisibleAt t r = true ↔ ∃ u, IsLastAt ups t r u := by
  rw [PaxMvccZone.rowVisibleAt, hz.versions]
  cases hu : ups[r]? with
  | none => simp [IsLastAt, hu]
  | some u =>
    have hnext := lt_find?_iff (hsorted.sublist (List.drop_sublist (r + 1) ups)) ht u.entityId
    have hlater : (∀ v ∈ ups.drop (r + 1), v.entityId = u.entityId → t < v.epochId) ↔
        ∀ (j : ℕ) (v : Upsert), r < j → ups[j]? = some v → v.entityId = u.entityId →
          t < v.epochId := by
      constructor
      · intro h j v hj hv
        apply h v
        rw [List.mem_iff_getElem?]
        refine ⟨j - (r + 1), ?_⟩
        rw [List.getElem?_drop, ← hv]
        congr 1
        omega
      · intro h v hv
        obtain ⟨k, hk⟩ := List.mem_iff_getElem?.mp hv
        rw [List.getElem?_drop] at hk
        exact h (r + 1 + k) v (by omega) hk
    simp only [Option.map_some, Option.any_some, isVisibleAt, versionOf, Bool.and_eq_true,
      decide_eq_true_eq, IsLastAt, hu, Option.some_inj]
    rw [retractEpoch, hnext, hlater]
    constructor
    · rintro ⟨hepoch, h⟩
      exact ⟨u, rfl, hepoch, h⟩
    · rintro ⟨u, rfl, hepoch, h⟩
      exact ⟨hepoch, h⟩

/-- At the epoch that marks an active row none is seen, and none behind it. -/
theorem rowVisibleAt_of_le (hz : Holds z ups) (ht : activeEpoch ≤ t) (r : ℕ) :
    z.rowVisibleAt t r = false := by
  rw [PaxMvccZone.rowVisibleAt, hz.versions]
  cases hu : ups[r]? with
  | none => rfl
  | some u =>
    have hend : retractEpoch ups r u.entityId ≤ activeEpoch := by
      rw [retractEpoch]
      cases hfind : (ups.drop (r + 1)).find? fun w => w.entityId = u.entityId with
      | none => exact le_rfl
      | some w =>
        exact (hz.epochs w (List.mem_of_mem_drop (List.mem_of_find?_eq_some hfind))).le
    have hnot : ¬ t < retractEpoch ups r u.entityId := by omega
    simp [isVisibleAt, versionOf, hnot]

theorem visibleRowsAt_eq (hz : Holds z ups) (t : ℕ) :
    z.visibleRowsAt t = (List.range ups.length).filter (z.rowVisibleAt t) := by
  rw [← hz.length]
  apply map_filter_eq_filter_range
  intro r v hv
  rw [hz.versions] at hv
  obtain ⟨u, -, rfl⟩ := Option.map_eq_some_iff.mp hv
  rfl

theorem mem_visibleRowsAt (hz : Holds z ups) {r : ℕ} :
    r ∈ z.visibleRowsAt t ↔ z.rowVisibleAt t r = true := by
  rw [hz.visibleRowsAt_eq, List.mem_filter, List.mem_range, and_iff_right_iff_imp]
  intro h
  by_contra hlen
  rw [PaxMvccZone.rowVisibleAt, hz.versions, List.getElem?_eq_none (by omega)] at h
  exact absurd h (by simp)

theorem lookup_cellsOf (hz : Holds z ups) {r : ℕ} {u : Upsert} (hu : ups[r]? = some u)
    (a : String) : (z.cellsOf r).lookup a = (u.attributes.get? a).filter (· ≠ .null) := by
  rw [PaxMvccZone.lookup_cellsOf, hz.cells, givenCell, hu, Option.bind_some]
  cases u.attributes.get? a <;> rfl

/-- A pull at an epoch shows the last upsert of the entity up to it. -/
theorem pullAsOf (hz : Holds z ups)
    (hsorted : ups.Pairwise fun u v => u.epochId ≤ v.epochId) (ht : t < activeEpoch) (e : String) :
    (z.pullAsOf e t).map OrdMap.lookup =
      (lastUpsertAt ups e t).map fun u a => (u.attributes.get? a).filter (· ≠ .null) := by
  rw [PaxMvccZone.pullAsOf_eq hz.directory, Option.map_map]
  cases hlast : lastUpsertAt ups e t with
  | none =>
    rw [Option.map_none, Option.map_eq_none_iff, List.find?_eq_none]
    intro r hr hvisible
    obtain ⟨u, hu⟩ := (hz.rowVisibleAt_iff hsorted ht).mp hvisible
    obtain ⟨w, hw, he⟩ := hz.mem_rowsOf.mp (List.mem_reverse.mp hr)
    cases hw.symm.trans hu.1
    have hsome := lastUpsertAt_eq_some.mpr ⟨he, r, hu⟩
    rw [hlast] at hsome
    exact absurd hsome (by simp)
  | some u =>
    obtain ⟨he, r, hu⟩ := lastUpsertAt_eq_some.mp hlast
    have hmem : r ∈ (z.rowsOf e).reverse :=
      List.mem_reverse.mpr (hz.mem_rowsOf.mpr ⟨u, hu.1, he⟩)
    have hvisible : z.rowVisibleAt t r = true := (hz.rowVisibleAt_iff hsorted ht).mpr ⟨u, hu⟩
    have hfind : (z.rowsOf e).reverse.find? (z.rowVisibleAt t) = some r := by
      obtain ⟨r', hr'⟩ := Option.isSome_iff_exists.mp (List.find?_isSome.mpr ⟨r, hmem, hvisible⟩)
      obtain ⟨u', hu'⟩ := (hz.rowVisibleAt_iff hsorted ht).mp (List.find?_some hr')
      obtain ⟨w, hw, hwe⟩ :=
        hz.mem_rowsOf.mp (List.mem_reverse.mp (List.mem_of_find?_eq_some hr'))
      cases hw.symm.trans hu'.1
      rw [hr', hu'.unique hu (hwe.trans he.symm)]
    rw [hfind, Option.map_some, Option.map_some]
    congr 1
    funext a
    exact hz.lookup_cellsOf hu.1 a

theorem queryByAttributeValue_eq (hz : Holds z ups) (a v : String) (t : ℕ) :
    z.queryByAttributeValue a v t =
      (z.visibleRowsAt t).filter fun r => canonicalValue (z.cell a r) = some v := by
  have hpostings := hz.postings a v
  rw [PaxMvccZone.postings] at hpostings
  rw [PaxMvccZone.queryByAttributeValue, hpostings, hz.visibleRowsAt_eq, List.filter_filter,
    List.filter_filter]
  apply List.filter_congr
  intro r _
  rw [hz.cells, Bool.and_comm]

end Holds

omit [FileDigests] in
/-- A value is written as a text, or as an integer that prints as it. -/
theorem canonicalValue_eq_some {c : MbfCellValue} {v : String} :
    canonicalValue c = some v ↔ c = .text v ∨ ∃ n, c = .int64 n ∧ toString n.val = v := by
  cases c <;> simp [canonicalValue]

/-- What the reads of a zone show at an epoch, in terms of the upserts behind it. -/
structure ShowsAt (z : PaxMvccZone) (ups : List Upsert) (t : ℕ) : Prop where
  pull : ∀ e, (z.pullAsOf e t).map OrdMap.lookup =
    (lastUpsertAt ups e t).map fun u a => (u.attributes.get? a).filter (· ≠ .null)
  visible_nodup : (z.visibleRowsAt t).Nodup
  visible_unique : ∀ e, (∃ u ∈ ups, u.entityId = e ∧ u.epochId ≤ t) →
    ∃! r, r ∈ z.visibleRowsAt t ∧ r ∈ z.rowsOf e
  visible_only : ∀ r ∈ z.visibleRowsAt t, ∃ u ∈ ups, r ∈ z.rowsOf u.entityId ∧ u.epochId ≤ t
  query_nodup : ∀ a v, (z.queryByAttributeValue a v t).Nodup
  query : ∀ a v r, r ∈ z.queryByAttributeValue a v t ↔
    r ∈ z.visibleRowsAt t ∧ (z.cell a r = .text v ∨ ∃ n, z.cell a r = .int64 n ∧ toString n.val = v)

theorem Holds.showsAt {z : PaxMvccZone} {ups : List Upsert} {t : ℕ} (hz : Holds z ups)
    (hsorted : ups.Pairwise fun u v => u.epochId ≤ v.epochId) (ht : t < activeEpoch) :
    ShowsAt z ups t where
  pull := hz.pullAsOf hsorted ht
  visible_nodup := by
    rw [hz.visibleRowsAt_eq]
    exact List.nodup_range.filter _
  visible_unique := by
    rintro e ⟨u, hu, he, hepoch⟩
    have hsome : (lastUpsertAt ups e t).isSome := by
      rw [lastUpsertAt, List.find?_isSome]
      exact ⟨u, List.mem_reverse.mpr hu, by simp [he, hepoch]⟩
    obtain ⟨w, hw⟩ := Option.isSome_iff_exists.mp hsome
    obtain ⟨hwe, r, hr⟩ := lastUpsertAt_eq_some.mp hw
    refine ⟨r, ⟨?_, hz.mem_rowsOf.mpr ⟨w, hr.1, hwe⟩⟩, ?_⟩
    · exact hz.mem_visibleRowsAt.mpr ((hz.rowVisibleAt_iff hsorted ht).mpr ⟨w, hr⟩)
    · rintro r' ⟨hvisible, hmem⟩
      obtain ⟨w', hr'⟩ := (hz.rowVisibleAt_iff hsorted ht).mp (hz.mem_visibleRowsAt.mp hvisible)
      obtain ⟨x, hx, hxe⟩ := hz.mem_rowsOf.mp hmem
      cases hx.symm.trans hr'.1
      exact hr'.unique hr (hxe.trans hwe.symm)
  visible_only := by
    intro r hvisible
    obtain ⟨u, hu⟩ := (hz.rowVisibleAt_iff hsorted ht).mp (hz.mem_visibleRowsAt.mp hvisible)
    exact ⟨u, List.mem_of_getElem? hu.1, hz.mem_rowsOf.mpr ⟨u, hu.1, rfl⟩, hu.2.1⟩
  query_nodup := by
    intro a v
    rw [hz.queryByAttributeValue_eq, hz.visibleRowsAt_eq]
    exact (List.nodup_range.filter _).filter _
  query := by
    intro a v r
    rw [hz.queryByAttributeValue_eq, List.mem_filter, decide_eq_true_eq, canonicalValue_eq_some]

/-- Nothing is shown. -/
structure ShowsNothingAt (z : PaxMvccZone) (t : ℕ) : Prop where
  pull : ∀ e, z.pullAsOf e t = none
  visible : z.visibleRowsAt t = []
  query : ∀ a v, z.queryByAttributeValue a v t = []

theorem Holds.showsNothingAt {z : PaxMvccZone} {ups : List Upsert} {t : ℕ} (hz : Holds z ups)
    (ht : activeEpoch ≤ t) : ShowsNothingAt z t where
  pull := by
    intro e
    rw [PaxMvccZone.pullAsOf_eq hz.directory, Option.map_eq_none_iff, List.find?_eq_none]
    intro r _
    simp [hz.rowVisibleAt_of_le ht r]
  visible := by
    rw [hz.visibleRowsAt_eq, List.filter_eq_nil_iff]
    intro r _
    simp [hz.rowVisibleAt_of_le ht r]
  query := by
    intro a v
    rw [PaxMvccZone.queryByAttributeValue, List.filter_eq_nil_iff]
    intro r _
    simp [hz.rowVisibleAt_of_le ht r]

/-- After any upserts in order of their epochs, as many as row numbers, every epoch shows the
entities as they were last upserted up to it; the mark of an active row shows none of them. -/
theorem time_travel (entityType : String) (ups : List Upsert)
    (hsorted : ups.Pairwise fun u v => u.epochId ≤ v.epochId)
    (hepochs : ∀ u ∈ ups, u.epochId < activeEpoch) (hrows : ups.length ≤ 2 ^ 32) :
    ∃ z, (PaxMvccZone.new entityType).upsertAll ups = some z ∧
      (∀ t < activeEpoch, ShowsAt z ups t) ∧ ShowsNothingAt z activeEpoch ∧
      ∀ r : ℕ, z.activeVisibilityWords.bit r = true ↔
        ∃ v, z.mvccVersions[r]? = some v ∧ v.txRetractEpoch = activeEpoch := by
  obtain ⟨z, hz, hold⟩ := exists_holds entityType ups hepochs hrows
  refine ⟨z, hz, fun t ht => hold.showsAt hsorted ht, hold.showsNothingAt le_rfl, ?_⟩
  intro r
  rw [hold.bits r, PaxMvccZone.isActive, Option.any_eq_true]
  simp

/-! ### Work orders -/

omit [FileDigests]

/-- The directory hash, with the value it has for the work order below. -/
@[reducible] def orderDigests : FileDigests := ⟨fun _ => 0, fun _ _ => 10719427480886610286⟩

def orderUpsert (entityId : String) (epochId : ℕ) (status : String) : Upsert :=
  ⟨entityId, epochId, [("status", .text status)], by simp⟩

theorem time_travel_orders :
    ∃ z, @PaxMvccZone.upsertAll orderDigests (.new "work_order")
        [orderUpsert "WO-100" 1 "OPEN", orderUpsert "WO-100" 5 "COMPLETED"] = some z ∧
      (∀ t < activeEpoch, @ShowsAt orderDigests z
        [orderUpsert "WO-100" 1 "OPEN", orderUpsert "WO-100" 5 "COMPLETED"] t) ∧
      @ShowsNothingAt orderDigests z activeEpoch ∧
      ∀ r : ℕ, z.activeVisibilityWords.bit r = true ↔
        ∃ v, z.mvccVersions[r]? = some v ∧ v.txRetractEpoch = activeEpoch :=
  @time_travel orderDigests "work_order" _ (by simp [orderUpsert])
    (by simp [orderUpsert, activeEpoch]) (by simp)

/-- A first order, `n` upserts of a second one, and a third. -/
def wrappedOrders (n : ℕ) : List Upsert :=
  orderUpsert "WO-100" 1 "OPEN" :: (List.replicate n (orderUpsert "WO-101" 2 "OPEN") ++
    [orderUpsert "WO-102" 3 "CLOSED"])

theorem entityId_of_wrappedOrders {n j : ℕ} {u : Upsert} (hj : 0 < j)
    (hu : (wrappedOrders n)[j]? = some u) : u.entityId ≠ "WO-100" := by
  obtain ⟨j, rfl⟩ := Nat.exists_eq_succ_of_ne_zero hj.ne'
  rw [wrappedOrders, List.getElem?_cons_succ] at hu
  rcases List.mem_append.mp (List.mem_of_getElem? hu) with hmem | hmem
  · rw [(List.mem_replicate.mp hmem).2]
    decide
  · rw [List.mem_singleton.mp hmem]
    decide

theorem lastUpsertAt_wrappedOrders (n : ℕ) :
    lastUpsertAt (wrappedOrders n) "WO-100" 3 = some (orderUpsert "WO-100" 1 "OPEN") := by
  refine lastUpsertAt_eq_some.mpr ⟨rfl, 0, rfl, by decide, ?_⟩
  intro j v hj hv he
  exact absurd he (entityId_of_wrappedOrders hj hv)

/-- With a row more than there are row numbers, the cells of the first one are overwritten. -/
theorem wrapped_row [FileDigests] {n : ℕ} (hn : n + 1 = 2 ^ 32) :
    ∃ z, (PaxMvccZone.new "work_order").upsertAll (wrappedOrders n) = some z ∧
      (z.pullAsOf "WO-100" 3).map (fun m => m.lookup "status") = some (some (.text "CLOSED")) := by
  set ups := orderUpsert "WO-100" 1 "OPEN" :: List.replicate n (orderUpsert "WO-101" 2 "OPEN")
    with hups
  set last := orderUpsert "WO-102" 3 "CLOSED" with hlast
  have hlen : ups.length = 2 ^ 32 := by rw [hups, List.length_cons, List.length_replicate, hn]
  have hepochs : ∀ u ∈ ups, u.epochId < activeEpoch := by
    intro u hu
    rcases List.mem_cons.mp hu with rfl | hu
    · decide
    · rw [(List.mem_replicate.mp hu).2]
      decide
  obtain ⟨z, hz, hold⟩ := exists_holds "work_order" ups hepochs hlen.le
  obtain ⟨z', hup, hz'⟩ :=
    PaxMvccZone.upsertEntity_upserted hold.filled last.entityId last.epochId last.attributes
  have hrow : z.newRowId = 0 := by rw [PaxMvccZone.newRowId, hold.length, hlen, Nat.mod_self]
  have hfirst : ups[0]? = some (orderUpsert "WO-100" 1 "OPEN") := rfl
  have hall : ups ++ [last] = wrappedOrders n := rfl
  have honly {r : ℕ} (hr : r ∈ z'.rowsOf "WO-100") : r = 0 := by
    rw [hz'.rows, if_neg (by decide), List.append_nil, hold.mem_rowsOf] at hr
    obtain ⟨u, hu, he⟩ := hr
    by_contra hne
    apply entityId_of_wrappedOrders (n := n) (Nat.pos_of_ne_zero hne) ?_ he
    rw [← hall, getElem?_concat_of_lt (List.getElem?_eq_some_iff.mp hu).1, hu]
  have hmem : 0 ∈ z'.rowsOf "WO-100" := by
    rw [hz'.rows, if_neg (by decide), List.append_nil, hold.mem_rowsOf]
    exact ⟨_, hfirst, rfl⟩
  have hactive : retractEpoch (ups ++ [last]) 0 "WO-100" = activeEpoch := by
    have hnone : ((ups ++ [last]).drop 1).find? (fun u => u.entityId = "WO-100") = none := by
      rw [List.find?_eq_none]
      intro u hu
      obtain ⟨j, hj⟩ := List.mem_iff_getElem?.mp hu
      rw [hall, List.getElem?_drop] at hj
      simpa using entityId_of_wrappedOrders (by omega) hj
    rw [retractEpoch, hnone]
    rfl
  have hvisible : z'.rowVisibleAt 3 0 = true := by
    rw [PaxMvccZone.rowVisibleAt, hz'.versions, List.getElem?_append_left,
      hold.versions_retractExisting, hfirst, Option.map_some, Option.any_some, isVisibleAt,
      versionOf, show (orderUpsert "WO-100" 1 "OPEN").entityId = "WO-100" from rfl, hactive]
    · decide
    · rw [PaxMvccZone.length_retractExisting, hold.length, hlen]
      norm_num
  have hfind : (z'.rowsOf "WO-100").reverse.find? (z'.rowVisibleAt 3) = some 0 := by
    obtain ⟨r, hr⟩ := Option.isSome_iff_exists.mp
      (List.find?_isSome.mpr ⟨0, List.mem_reverse.mpr hmem, hvisible⟩)
    rw [hr, honly (List.mem_reverse.mp (List.mem_of_find?_eq_some hr))]
  refine ⟨z', ?_, ?_⟩
  · rw [PaxMvccZone.upsertAll] at hz ⊢
    rw [← hall, List.foldlM_append, hz]
    simp [hup]
  · have hcell := hz'.cells "status" 0
    rw [hrow, if_pos rfl] at hcell
    rw [PaxMvccZone.pullAsOf_eq hz'.directory, hfind, Option.map_some, Option.map_some,
      PaxMvccZone.lookup_cellsOf, hcell]
    rfl

/-- At the mark of an active row an order is not seen; and with a row more than there are row
numbers a pull shows the cells of another order. -/
theorem order_hidden_and_overwritten :
    (∃ z, @PaxMvccZone.upsertAll orderDigests (.new "work_order")
        [orderUpsert "WO-100" 1 "OPEN"] = some z ∧
      @PaxMvccZone.pullAsOf orderDigests z "WO-100" activeEpoch = none ∧
      z.visibleRowsAt activeEpoch = [] ∧
      lastUpsertAt [orderUpsert "WO-100" 1 "OPEN"] "WO-100" activeEpoch =
        some (orderUpsert "WO-100" 1 "OPEN")) ∧
    ∃ z, @PaxMvccZone.upsertAll orderDigests (.new "work_order")
        (wrappedOrders (2 ^ 32 - 1)) = some z ∧
      (@PaxMvccZone.pullAsOf orderDigests z "WO-100" 3).map (fun m => m.lookup "status") =
        some (some (.text "CLOSED")) ∧
      lastUpsertAt (wrappedOrders (2 ^ 32 - 1)) "WO-100" 3 =
        some (orderUpsert "WO-100" 1 "OPEN") := by
  let _ := orderDigests
  constructor
  · obtain ⟨z, hz, hold⟩ := exists_holds "work_order" [orderUpsert "WO-100" 1 "OPEN"]
      (by simp [orderUpsert, activeEpoch]) (by simp)
    have hnothing := hold.showsNothingAt le_rfl
    refine ⟨z, hz, hnothing.pull "WO-100", hnothing.visible, ?_⟩
    refine lastUpsertAt_eq_some.mpr ⟨rfl, 0, rfl, by decide, ?_⟩
    intro j v hj hv
    rw [List.getElem?_eq_none hj] at hv
    exact absurd hv (by simp)
  · obtain ⟨z, hz, hpull⟩ := wrapped_row (n := 2 ^ 32 - 1) (by norm_num)
    exact ⟨z, hz, hpull, lastUpsertAt_wrappedOrders _⟩

end MetriEngine.Storage.PaxMvcc
