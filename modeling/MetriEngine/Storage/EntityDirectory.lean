import MetriEngine.Foundation.Bitmap
import MetriEngine.Storage.PaxMvcc

/-!
# The entity directory with its offsets

Beside the table that finds the rows of an entity the directory keeps where the entry of each
entity begins, in two parts: the low bits of every offset as they are, and the high ones as the
distances of the set bits of a bitmap. The table keeps places in the sorted list by their low 32
bits, and the highest of these words stands for a free slot.
-/
namespace MetriEngine.Storage.PaxMvcc
open Foundation Envelope

/-- The directory and its three Elias-Fano fields. -/
structure EntityDirectory extends EliasFanoEntityDirectory where
  efLowWidth : ℕ
  efLowBits : List ℕ
  efHighBits : Bitmap
deriving DecidableEq

namespace EntityDirectory

/-- `eid.len() + rows.len() * 4` -/
def entrySize (e : String × List ℕ) : ℕ := (utf8 e.1).length + e.2.length * 4

def monotonicOffsets : ℕ → List (String × List ℕ) → List ℕ
  | _, [] => []
  | runningOffset, e :: pairs =>
    runningOffset :: monotonicOffsets (runningOffset + entrySize e) pairs

def lowMask (efLowWidth : ℕ) : ℕ := if efLowWidth = 0 then 0 else 1 <<< efLowWidth - 1

def markHigh (efLowWidth : ℕ) (words : Bitmap) (entry : ℕ × ℕ) : Bitmap :=
  let highPos := (entry.1 >>> efLowWidth) + entry.2
  if highPos / 64 < words.length then words.setBit highPos else words

def highBits (efLowWidth : ℕ) (offsets : List ℕ) : Bitmap :=
  let maxHigh := (offsets.getLast?.getD 0 >>> efLowWidth) + offsets.length + 2
  offsets.zipIdx.foldl (markHigh efLowWidth) (List.replicate ((maxHigh + 63) / 64) 0#64)

section Hashed
variable [FileDigests]

/-- Nothing when `ilog2` panics, which takes entries without bytes. -/
def buildFromMap (index : OrdMap String (List ℕ)) : Option EntityDirectory :=
  (EliasFanoEntityDirectory.buildFromMap index).bind fun base =>
    if index.entries = [] then some ⟨base, 0, [], []⟩
    else
      let n := index.entries.length
      let offsets := monotonicOffsets 0 index.entries
      let universeSize := max (index.entries.map entrySize).sum 1
      if universeSize / max n 1 = 0 then none
      else
        let efLowWidth := min (universeSize / max n 1).log2 31
        some ⟨base, efLowWidth, offsets.map (· &&& lowMask efLowWidth),
          highBits efLowWidth offsets⟩

end Hashed

def selectOffset (d : EntityDirectory) (rank : ℕ) : Option ℕ :=
  (d.efLowBits[rank]?).bind fun low =>
    (Bitmap.selectFrom d.efHighBits 0 rank).map fun bitPos =>
      ((bitPos - rank) <<< d.efLowWidth) ||| low

/-! ### Offsets -/

theorem length_monotonicOffsets (running : ℕ) (pairs : List (String × List ℕ)) :
    (monotonicOffsets running pairs).length = pairs.length := by
  induction pairs generalizing running with
  | nil => rfl
  | cons e pairs ih => rw [monotonicOffsets, List.length_cons, ih, List.length_cons]

theorem getElem?_monotonicOffsets (running : ℕ) (pairs : List (String × List ℕ)) {i : ℕ}
    (hi : i < pairs.length) :
    (monotonicOffsets running pairs)[i]? = some (running + ((pairs.take i).map entrySize).sum) := by
  induction pairs generalizing running i with
  | nil => simp at hi
  | cons e pairs ih =>
    cases i with
    | zero => simp [monotonicOffsets]
    | succ i =>
      rw [monotonicOffsets, List.getElem?_cons_succ, ih _ (by simpa using hi), List.take_succ_cons,
        List.map_cons, List.sum_cons, Nat.add_assoc]

/-- The offsets do not decrease. -/
theorem monotonicOffsets_le (running : ℕ) (pairs : List (String × List ℕ)) :
    (∀ off ∈ monotonicOffsets running pairs, running ≤ off) ∧
      (monotonicOffsets running pairs).Pairwise (· ≤ ·) := by
  induction pairs generalizing running with
  | nil => exact ⟨by simp [monotonicOffsets], List.Pairwise.nil⟩
  | cons e pairs ih =>
    obtain ⟨hle, hpair⟩ := ih (running + entrySize e)
    refine ⟨?_, List.pairwise_cons.mpr ⟨fun off hoff => ?_, hpair⟩⟩
    · intro off hoff
      rcases List.mem_cons.mp hoff with rfl | hoff
      · exact le_rfl
      · have := hle off hoff
        omega
    · have := hle off hoff
      omega

/-- An offset is put together again from its two parts. -/
theorem high_or_low (efLowWidth off : ℕ) :
    ((off >>> efLowWidth) <<< efLowWidth) ||| (off &&& lowMask efLowWidth) = off := by
  have hmask : off &&& lowMask efLowWidth = off % 2 ^ efLowWidth := by
    rw [lowMask]
    split_ifs with hzero
    · rw [hzero, Nat.and_zero, pow_zero, Nat.mod_one]
    · rw [Nat.shiftLeft_eq, one_mul, Nat.and_two_pow_sub_one_eq_mod]
  rw [hmask, ← Nat.shiftLeft_add_eq_or_of_lt (Nat.mod_lt _ (by positivity)), Nat.shiftLeft_eq,
    Nat.shiftRight_eq_div_pow, Nat.div_add_mod']

/-- The places of the set bits. -/
def highPlaces (efLowWidth : ℕ) (offsets : List ℕ) : List ℕ :=
  offsets.zipIdx.map fun e => (e.1 >>> efLowWidth) + e.2

theorem markHigh_eq (efLowWidth : ℕ) (words : Bitmap) (entry : ℕ × ℕ) :
    markHigh efLowWidth words entry = words.setBit ((entry.1 >>> efLowWidth) + entry.2) := by
  simp only [markHigh]
  split_ifs with hin
  · rfl
  · exact (List.modify_eq_self (by omega)).symm

theorem highBits_eq (efLowWidth : ℕ) (offsets : List ℕ) :
    highBits efLowWidth offsets = (highPlaces efLowWidth offsets).foldl Bitmap.setBit
      (List.replicate (((offsets.getLast?.getD 0 >>> efLowWidth) + offsets.length + 2 + 63) / 64)
        0#64) := by
  rw [highBits, highPlaces, List.foldl_map]
  congr 1
  funext words entry
  exact markHigh_eq efLowWidth words entry

theorem getElem_highPlaces (efLowWidth : ℕ) (offsets : List ℕ) {i : ℕ}
    (hi : i < (highPlaces efLowWidth offsets).length) (hi' : i < offsets.length) :
    (highPlaces efLowWidth offsets)[i] = (offsets[i] >>> efLowWidth) + i := by
  simp [highPlaces]

section Places
variable {offsets : List ℕ} (hmono : offsets.Pairwise (· ≤ ·))
include hmono

theorem le_of_index_le {i j : ℕ} (hj : j < offsets.length) (hij : i ≤ j) :
    offsets[i] ≤ offsets[j] := by
  rcases Nat.eq_or_lt_of_le hij with rfl | hlt
  · exact le_rfl
  · exact List.pairwise_iff_getElem.mp hmono i j _ hj hlt

theorem highPlaces_increasing (efLowWidth : ℕ) :
    (highPlaces efLowWidth offsets).Pairwise (· < ·) := by
  have hlen : (highPlaces efLowWidth offsets).length = offsets.length := by simp [highPlaces]
  rw [List.pairwise_iff_getElem]
  intro i j hi hj hij
  rw [hlen] at hi hj
  rw [getElem_highPlaces _ _ _ hi, getElem_highPlaces _ _ _ hj]
  have hle : offsets[i] >>> efLowWidth ≤ offsets[j] >>> efLowWidth := by
    rw [Nat.shiftRight_eq_div_pow, Nat.shiftRight_eq_div_pow]
    exact Nat.div_le_div_right (le_of_index_le hmono hj hij.le)
  omega

theorem highPlaces_in (efLowWidth : ℕ) :
    ∀ p ∈ highPlaces efLowWidth offsets,
      p / 64 < ((offsets.getLast?.getD 0 >>> efLowWidth) + offsets.length + 2 + 63) / 64 := by
  intro p hp
  obtain ⟨i, hi, rfl⟩ := List.mem_iff_getElem.mp hp
  have hlen : (highPlaces efLowWidth offsets).length = offsets.length := by simp [highPlaces]
  rw [hlen] at hi
  rw [getElem_highPlaces _ _ _ hi]
  have hlast : offsets.getLast?.getD 0 = offsets[offsets.length - 1] := by
    rw [List.getLast?_eq_getElem?, List.getElem?_eq_getElem (by omega), Option.getD_some]
  have hle : offsets[i] >>> efLowWidth ≤ offsets[offsets.length - 1] >>> efLowWidth := by
    rw [Nat.shiftRight_eq_div_pow, Nat.shiftRight_eq_div_pow]
    exact Nat.div_le_div_right (le_of_index_le hmono (by omega) (by omega))
  rw [hlast]
  omega

/-- The bit of a rank and the low bits of the rank give the offset back. -/
theorem select_highBits (efLowWidth : ℕ) {i : ℕ} (hi : i < offsets.length) :
    Bitmap.selectFrom (highBits efLowWidth offsets) 0 i =
      some ((offsets[i] >>> efLowWidth) + i) := by
  have hlen : (highPlaces efLowWidth offsets).length = offsets.length := by simp [highPlaces]
  rw [highBits_eq, Bitmap.selectFrom_places (highPlaces_increasing hmono efLowWidth)
    (highPlaces_in hmono efLowWidth) (by omega), getElem_highPlaces _ _ _ hi]

end Places

/-! ### The table -/

section Hashed
variable [FileDigests]

/-- Each entity that is placed is reached from its own slot, and what was reached before still
is. -/
theorem placeFrom_reaches {seed : ℕ} {eids : List String} {sortedIdx : ℕ} {slots slots' : List ℕ}
    (h : EliasFanoEntityDirectory.placeFrom seed sortedIdx eids slots = some slots')
    (hlt : sortedIdx + eids.length < 2 ^ 32) (hpos : 0 < slots.length) :
    slots'.length = slots.length ∧
    (∀ slot a, a ≠ EliasFanoEntityDirectory.emptySlot →
      Reaches EliasFanoEntityDirectory.emptySlot slots slot a →
        Reaches EliasFanoEntityDirectory.emptySlot slots' slot a) ∧
    ∀ i eid, eids[i]? = some eid → Reaches EliasFanoEntityDirectory.emptySlot slots'
      (EliasFanoEntityDirectory.slotOf eid seed slots.length) (sortedIdx + i) := by
  induction eids generalizing sortedIdx slots with
  | nil =>
    cases h
    exact ⟨rfl, fun _ _ _ h => h, fun i eid hi => by simp at hi⟩
  | cons e eids ih =>
    rw [List.length_cons] at hlt
    rw [EliasFanoEntityDirectory.placeFrom] at h
    obtain ⟨s, hs, h⟩ := Option.bind_eq_some_iff.mp h
    rw [Nat.mod_eq_of_lt (by omega)] at h
    have hslot : EliasFanoEntityDirectory.slotOf e seed slots.length < slots.length :=
      Nat.mod_lt _ hpos
    have hidx : sortedIdx ≠ EliasFanoEntityDirectory.emptySlot := by
      rw [EliasFanoEntityDirectory.emptySlot]
      omega
    obtain ⟨-, -, -, hfree, -⟩ := freeSlot_eq_some hslot hs
    obtain ⟨hlen, hkeep, hrest⟩ := ih h (by omega) (by rwa [List.length_set])
    rw [List.length_set] at hlen hrest
    refine ⟨hlen, fun slot a ha hreach => hkeep slot a ha (hreach.set ha hfree hidx), ?_⟩
    intro i eid hi
    cases i with
    | zero =>
      rw [List.getElem?_cons_zero, Option.some.injEq] at hi
      subst hi
      exact hkeep _ _ hidx (reaches_set hslot hs sortedIdx)
    | succ i =>
      rw [List.getElem?_cons_succ] at hi
      rw [show sortedIdx + (i + 1) = sortedIdx + 1 + i by omega]
      exact hrest i eid hi

omit [FileDigests] in
/-- A probe that meets the place of an entity before a free slot finds its rows. -/
theorem probe_of_reaches {d : EliasFanoEntityDirectory} {entityId : String} {j : ℕ}
    {rows : List ℕ} (hnodup : d.sortedEntityIds.Nodup)
    (hid : d.sortedEntityIds[j]? = some entityId) (hrows : d.entityRowChains[j]? = some rows)
    (hj : j ≠ EliasFanoEntityDirectory.emptySlot) {k : ℕ} :
    ∀ {slot fuel : ℕ}, slot < d.mphfSlots.length → k < fuel →
      d.mphfSlots[(slot + k) % d.mphfSlots.length]? = some j →
      (∀ i < k, d.mphfSlots[(slot + i) % d.mphfSlots.length]? ≠
        some EliasFanoEntityDirectory.emptySlot) →
      d.probe entityId slot fuel = some rows := by
  induction k with
  | zero =>
    intro slot fuel hslot hfuel hfound _
    obtain ⟨fuel, rfl⟩ := Nat.exists_eq_add_of_lt hfuel
    rw [Nat.add_zero, Nat.mod_eq_of_lt hslot] at hfound
    rw [Nat.zero_add, EliasFanoEntityDirectory.probe, hfound, Option.bind_some, if_neg hj,
      if_pos hid, hrows]
  | succ k ih =>
    intro slot fuel hslot hfuel hfound hpassed
    obtain ⟨fuel, rfl⟩ : ∃ f, fuel = f + 1 := ⟨fuel - 1, by omega⟩
    have hhere := hpassed 0 (by omega)
    rw [Nat.add_zero, Nat.mod_eq_of_lt hslot, List.getElem?_eq_getElem hslot, ne_eq,
      Option.some.injEq] at hhere
    rw [EliasFanoEntityDirectory.probe, List.getElem?_eq_getElem hslot, Option.bind_some,
      if_neg hhere]
    by_cases hother : d.sortedEntityIds[d.mphfSlots[slot]]? = some entityId
    · have hsame := (List.getElem?_inj (List.getElem?_eq_some_iff.mp hid).1 hnodup).mp
        (hid.trans hother.symm)
      rw [if_pos hother, ← hsame, hrows]
    · rw [if_neg hother]
      apply ih (Nat.mod_lt _ (by omega)) (by omega)
      · rwa [Nat.mod_add_mod, show slot + 1 + k = slot + (k + 1) by omega]
      · intro i hi
        have hnext := hpassed (i + 1) (by omega)
        rwa [Nat.mod_add_mod, show slot + 1 + i = slot + (i + 1) by omega]

/-- With fewer than 2^32 entities the table finds the rows of each, and of no other. -/
theorem lookupRows_built {index : OrdMap String (List ℕ)} {d : EliasFanoEntityDirectory}
    (hbuild : EliasFanoEntityDirectory.buildFromMap index = some d)
    (hlt : index.entries.length < 2 ^ 32) (e : String) : d.lookupRows e = index.lookup e := by
  cases hrows : index.lookup e with
  | none =>
    cases hfound : d.lookupRows e with
    | none => rfl
    | some rows =>
      have hsound := EliasFanoEntityDirectory.lookupRows_sound hbuild hfound
      rw [hrows] at hsound
      cases hsound
  | some rows =>
    have hmem := OrdMap.lookup_eq_some.mp hrows
    rw [EliasFanoEntityDirectory.buildFromMap] at hbuild
    split_ifs at hbuild with hempty
    · rw [hempty] at hmem
      cases hmem
    · obtain ⟨slots, hplace, rfl⟩ := Option.map_eq_some_iff.mp hbuild
      obtain ⟨j, hj⟩ := List.mem_iff_getElem?.mp hmem
      have hjlt : j < index.entries.length := (List.getElem?_eq_some_iff.mp hj).1
      have hpos : 0 < max (2 ^ Nat.clog 2 (index.entries.length * 2)) 8 := by omega
      obtain ⟨hlen, -, hreach⟩ := placeFrom_reaches hplace
        (by rw [List.length_map]; omega) (by rwa [List.length_replicate])
      rw [List.length_replicate] at hlen
      have hid : (index.entries.map Prod.fst)[j]? = some e := by
        rw [List.getElem?_map, hj]
        rfl
      have hchain : (index.entries.map Prod.snd)[j]? = some rows := by
        rw [List.getElem?_map, hj]
        rfl
      obtain ⟨k, hk, hfound, hpassed⟩ := hreach j e hid
      rw [Nat.zero_add] at hfound
      rw [List.length_replicate, ← hlen] at hfound hpassed
      rw [EliasFanoEntityDirectory.lookupRows, if_neg]
      · apply probe_of_reaches (k := k) index.keys_nodup hid hchain _ _ hk hfound hpassed
        · rw [EliasFanoEntityDirectory.emptySlot]
          omega
        · exact Nat.mod_lt _ (by change 0 < slots.length; omega)
      · intro hnil
        change slots = [] at hnil
        rw [hnil, List.length_nil] at hlen
        omega

/-! ### What the directory promises -/

/-- The rows of every entity, and the offset of every place in the list and of none behind it. -/
structure Answers (index : OrdMap String (List ℕ)) (d : EntityDirectory) : Prop where
  rows : ∀ e, d.lookupRows e = index.lookup e
  offsets : ∀ i < index.entries.length,
    d.selectOffset i = some ((index.entries.take i).map entrySize).sum
  past : ∀ i, index.entries.length ≤ i → d.selectOffset i = none

variable {index : OrdMap String (List ℕ)} {d : EntityDirectory}

/-- The fields of a directory that was built of some entities. -/
theorem exists_fields (hbuild : buildFromMap index = some d) :
    EliasFanoEntityDirectory.buildFromMap index = some d.toEliasFanoEntityDirectory ∧
      ∃ efLowWidth, d.efLowWidth = efLowWidth ∧
        d.efLowBits = (monotonicOffsets 0 index.entries).map (· &&& lowMask efLowWidth) ∧
        (index.entries ≠ [] →
          d.efHighBits = highBits efLowWidth (monotonicOffsets 0 index.entries)) := by
  obtain ⟨base, hbase, hfields⟩ := Option.bind_eq_some_iff.mp hbuild
  split_ifs at hfields with hempty
  · cases hfields
    refine ⟨hbase, 0, rfl, ?_, fun h => absurd hempty h⟩
    rw [hempty]
    rfl
  · dsimp only at hfields
    split_ifs at hfields with hzero
    cases hfields
    exact ⟨hbase, _, rfl, rfl, fun _ => rfl⟩

theorem selectOffset_built (hbuild : buildFromMap index = some d) {i : ℕ}
    (hi : i < index.entries.length) :
    d.selectOffset i = some ((index.entries.take i).map entrySize).sum := by
  obtain ⟨-, efLowWidth, hwidth, hlow, hhigh⟩ := exists_fields hbuild
  have hlen := length_monotonicOffsets 0 index.entries
  have hne : index.entries ≠ [] := by
    rintro hempty
    rw [hempty] at hi
    simp at hi
  have hmono := (monotonicOffsets_le 0 index.entries).2
  have hoff := getElem?_monotonicOffsets 0 index.entries hi
  have hget := List.getElem?_eq_getElem (hlen.symm ▸ hi)
  rw [hget, Option.some.injEq, Nat.zero_add] at hoff
  rw [selectOffset, hlow, List.getElem?_map, hget, hhigh hne,
    select_highBits hmono efLowWidth (hlen.symm ▸ hi), hwidth, hoff]
  simp only [Option.map_some, Option.bind_some, Nat.add_sub_cancel, high_or_low]

theorem selectOffset_past (hbuild : buildFromMap index = some d) {i : ℕ}
    (hi : index.entries.length ≤ i) : d.selectOffset i = none := by
  obtain ⟨-, efLowWidth, -, hlow, -⟩ := exists_fields hbuild
  rw [selectOffset, hlow, List.getElem?_map, List.getElem?_eq_none
    (by rw [length_monotonicOffsets]; exact hi)]
  rfl

/-- Entries with rows have bytes, so a directory is built. -/
theorem buildFromMap_isSome (hrows : ∀ e ∈ index.entries, e.2 ≠ []) :
    ∃ d, buildFromMap index = some d := by
  obtain ⟨base, hbase⟩ := Option.isSome_iff_exists.mp
    (EliasFanoEntityDirectory.buildFromMap_isSome index)
  rw [buildFromMap, hbase, Option.bind_some]
  split_ifs with hempty
  · exact ⟨_, rfl⟩
  · dsimp only
    have hpos : 0 < index.entries.length := List.length_pos_iff_ne_nil.mpr hempty
    have hsum : index.entries.length ≤ (index.entries.map entrySize).sum := by
      have hsizes := List.card_nsmul_le_sum (index.entries.map entrySize) 1 (by
        intro size hsize
        obtain ⟨e, he, rfl⟩ := List.mem_map.mp hsize
        have := List.length_pos_iff_ne_nil.mpr (hrows e he)
        rw [entrySize]
        omega)
      rwa [List.length_map, smul_eq_mul, mul_one] at hsizes
    have hdiv : 0 < max (index.entries.map entrySize).sum 1 / max index.entries.length 1 :=
      Nat.div_pos (by omega) (by omega)
    rw [if_neg (by omega)]
    exact ⟨_, rfl⟩

/-- The entity in the place of the sentinel is not found. -/
theorem exists_lost (hbuild : buildFromMap index = some d)
    (hmany : EliasFanoEntityDirectory.emptySlot < index.entries.length) :
    ∃ e, d.lookupRows e ≠ index.lookup e := by
  obtain ⟨⟨e, rows⟩, hentry⟩ : ∃ entry,
      index.entries[EliasFanoEntityDirectory.emptySlot]? = some entry :=
    ⟨_, List.getElem?_eq_getElem hmany⟩
  refine ⟨e, fun hfound => ?_⟩
  rw [OrdMap.lookup_eq_some.mpr (List.mem_of_getElem? hentry),
    EliasFanoEntityDirectory.lookupRows] at hfound
  split_ifs at hfound
  obtain ⟨i, hi, hid, -⟩ := EliasFanoEntityDirectory.probe_eq_some hfound
  have hids : d.sortedEntityIds = index.entries.map Prod.fst := by
    have hbase := (exists_fields hbuild).1
    rw [EliasFanoEntityDirectory.buildFromMap] at hbase
    split_ifs at hbase with hempty
    · rw [hempty] at hmany
      simp at hmany
    · obtain ⟨slots, -, heq⟩ := Option.map_eq_some_iff.mp hbase
      rw [← heq]
  have hnodup : d.sortedEntityIds.Nodup := by
    rw [hids]
    exact index.keys_nodup
  have hplace : d.sortedEntityIds[EliasFanoEntityDirectory.emptySlot]? = some e := by
    rw [hids, List.getElem?_map, hentry]
    rfl
  exact hi ((List.getElem?_inj (List.getElem?_eq_some_iff.mp hid).1 hnodup).mp
    (hid.trans hplace.symm))

/-- Every map of entities with rows has a directory that finds the rows of each of them, and of
no other, and every offset, exactly when it has fewer than 2^32 entities. -/
theorem directory_answers_iff (hrows : ∀ e ∈ index.entries, e.2 ≠ []) :
    (∃ d, buildFromMap index = some d ∧ Answers index d) ↔ index.entries.length < 2 ^ 32 := by
  constructor
  · rintro ⟨d, hbuild, hanswers⟩
    by_contra hmany
    obtain ⟨e, hlost⟩ := exists_lost hbuild (by
      rw [EliasFanoEntityDirectory.emptySlot]
      omega)
    exact hlost (hanswers.rows e)
  · intro hlt
    obtain ⟨d, hbuild⟩ := buildFromMap_isSome hrows
    exact ⟨d, hbuild, lookupRows_built (exists_fields hbuild).1 hlt,
      fun i hi => selectOffset_built hbuild hi, fun i hi => selectOffset_past hbuild hi⟩

end Hashed

/-- All texts at one slot. -/
@[reducible] def sameSlot : FileDigests := ⟨fun _ => 0, fun _ _ => 0⟩

/-- Two entities, the second with two rows, in one chain of the table. -/
theorem two_entities_answered : ∃ d,
    @buildFromMap sameSlot ((∅ : OrdMap String (List ℕ)).insertList
      [("a", [0]), ("b", [1, 2])]) = some d ∧
      @Answers sameSlot ((∅ : OrdMap String (List ℕ)).insertList [("a", [0]), ("b", [1, 2])]) d :=
  (@directory_answers_iff sameSlot _ (by decide +kernel)).mpr (by decide +kernel)

/-! ### Too many entities -/

/-- The 32 low bits of a number as a text. -/
def bitText (i : ℕ) : String :=
  String.ofList ((List.range 32).map fun b => if i.testBit b then '1' else '0')

theorem bitText_inj {i j : ℕ} (hi : i < 2 ^ 32) (hj : j < 2 ^ 32) (h : bitText i = bitText j) :
    i = j := by
  have hchars := String.ofList_injective h
  apply Nat.eq_of_testBit_eq
  intro b
  by_cases hb : b < 32
  · have hbit := congrArg (fun l : List Char => l[b]?) hchars
    simp only [List.getElem?_map, List.getElem?_range hb, Option.map_some,
      Option.some.injEq] at hbit
    cases hib : i.testBit b <;> cases hjb : j.testBit b <;> simp [hib, hjb] at hbit ⊢
  · have hle : 2 ^ 32 ≤ 2 ^ b := Nat.pow_le_pow_right (by norm_num) (by omega)
    rw [Nat.testBit_lt_two_pow (by omega), Nat.testBit_lt_two_pow (by omega)]

def bitEntries (n : ℕ) : List (String × List ℕ) := (List.range n).map fun i => (bitText i, [0])

/-- So many entities of one row each. -/
def bitIndex (n : ℕ) : OrdMap String (List ℕ) :=
  (∅ : OrdMap String (List ℕ)).insertList (bitEntries n)

theorem nodup_bitEntries {n : ℕ} (hn : n ≤ 2 ^ 32) : ((bitEntries n).map Prod.fst).Nodup := by
  rw [bitEntries, List.map_map]
  apply List.Nodup.map_on _ List.nodup_range
  intro i hi j hj h
  rw [List.mem_range] at hi hj
  exact bitText_inj (by omega) (by omega) h

theorem lookup_bitIndex {n : ℕ} (hn : n ≤ 2 ^ 32) {i : ℕ} (hi : i < n) :
    (bitIndex n).lookup (bitText i) = some [0] :=
  OrdMap.lookup_insertList_of_mem _ (nodup_bitEntries hn)
    (List.mem_map_of_mem (List.mem_range.mpr hi))

theorem length_bitIndex {n : ℕ} (hn : n ≤ 2 ^ 32) : n ≤ (bitIndex n).entries.length := by
  have hsub : (bitEntries n).map Prod.fst ⊆ (bitIndex n).entries.map Prod.fst := by
    intro k hk
    obtain ⟨e, he, rfl⟩ := List.mem_map.mp hk
    obtain ⟨i, hi, rfl⟩ := List.mem_map.mp he
    have hmem := OrdMap.lookup_eq_some.mp (lookup_bitIndex hn (List.mem_range.mp hi))
    exact List.mem_map_of_mem hmem
  have hle := ((nodup_bitEntries hn).subperm hsub).length_le
  simpa [bitEntries] using hle

theorem rows_bitIndex {n : ℕ} (hn : n ≤ 2 ^ 32) : ∀ e ∈ (bitIndex n).entries, e.2 ≠ [] := by
  rintro ⟨k, rows⟩ he
  have hlookup := OrdMap.lookup_eq_some.mpr he
  by_cases hk : k ∈ (bitEntries n).map Prod.fst
  · obtain ⟨e, hmem, rfl⟩ := List.mem_map.mp hk
    obtain ⟨i, hi, rfl⟩ := List.mem_map.mp hmem
    rw [lookup_bitIndex hn (List.mem_range.mp hi)] at hlookup
    cases hlookup
    simp
  · rw [bitIndex, OrdMap.lookup_insertList_of_notMem _ hk, OrdMap.lookup_empty] at hlookup
    cases hlookup

/-- With all texts of 32 bits there is one that is not found. -/
theorem all_bit_texts_unanswered :
    (∀ e ∈ (bitIndex (2 ^ 32)).entries, e.2 ≠ []) ∧
      ¬∃ d, @buildFromMap sameSlot (bitIndex (2 ^ 32)) = some d ∧
        @Answers sameSlot (bitIndex (2 ^ 32)) d := by
  refine ⟨rows_bitIndex le_rfl, ?_⟩
  rintro ⟨d, hbuild, hanswers⟩
  have hlen := length_bitIndex (le_refl (2 ^ 32))
  obtain ⟨e, hlost⟩ := @exists_lost sameSlot _ _ hbuild (by
    rw [EliasFanoEntityDirectory.emptySlot]
    omega)
  exact hlost (@Answers.rows sameSlot _ _ hanswers e)

end EntityDirectory
end MetriEngine.Storage.PaxMvcc
