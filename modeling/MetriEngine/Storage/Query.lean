import MetriEngine.Foundation.Transition
import MetriEngine.Storage.Client

/-!
# Range queries over the four trees

A query starts a range scan at a partition and a first sort key and breaks at the
first entry that leaves the condition. On exact trees this is a full scan of the
items, filtered by the condition and sorted by sort key and primary key.
-/
namespace MetriEngine.Storage
open Foundation

inductive MbfSecondaryIndex
  | primaryEavt
  | aevt
  | avet
  | vaet
deriving DecidableEq

def MbfSecondaryIndex.fromIndexName : Option String → MbfSecondaryIndex
  | some "GSI-AEVT" => .aevt
  | some "AEVT" => .aevt
  | some "GSI-AVET" => .avet
  | some "AVET" => .avet
  | some "GSI-VAET" => .vaet
  | some "VAET" => .vaet
  | _ => .primaryEavt

/-! ### The scan -/

/-- What a query reads from its condition text and its expression values. -/
structure ScanBounds where
  targetPk : String
  hasLte : Bool
  hasPrefix : Bool
  skMin : Option (List Byte)
  skMax : Option (List Byte)
  skPrefix : Option (List Byte)

def scanBounds (keyCondition : String) (exprAttrValues : Item) : ScanBounds where
  targetPk :=
    (((exprAttrValues.lookup ":pk").or (exprAttrValues.lookup ":ap")).bind avString).getD ""
  hasLte := Text.contains keyCondition "<=" || Text.contains keyCondition "BETWEEN"
  hasPrefix := Text.contains keyCondition "begins_with"
  skMin := (exprAttrValues.lookup ":sk_min").bind avBytes
  skMax := (exprAttrValues.lookup ":sk_max").bind avBytes
  skPrefix := (exprAttrValues.lookup ":sk_prefix").bind avBytes

namespace ScanBounds
variable (bounds : ScanBounds)

def initialSk : List Byte :=
  match bounds.skMin with
  | some minBytes => minBytes
  | none => if bounds.hasPrefix then bounds.skPrefix.getD [] else []

/-- The test an entry has to pass for the scan to go on. -/
def inScan (part : String) (sort : List Byte) : Bool :=
  decide (part = bounds.targetPk) &&
    !(bounds.hasLte && bounds.skMax.any fun maxBytes => decide (maxBytes < sort)) &&
    !(bounds.hasPrefix && bounds.skPrefix.any fun prefixBytes => !prefixBytes.isPrefixOf sort)

end ScanBounds

namespace MbfPartitionStore
variable (st : MbfPartitionStore)

/-- The secondary tree that an index name selects. -/
def tree : MbfSecondaryIndex → OrdMap IndexKey Unit
  | .aevt => st.aevtIndex
  | .avet => st.avetIndex
  | .vaet => st.vaetIndex
  | .primaryEavt => st.aevtIndex

def matchedItems (index : MbfSecondaryIndex) (bounds : ScanBounds) : List Item :=
  match index with
  | .primaryEavt =>
    ((st.items.rangeFrom ⟨bounds.targetPk, bounds.initialSk⟩).takeWhile
      fun e => bounds.inScan e.1.pk e.1.sk).map Prod.snd
  | index =>
    (((st.tree index).rangeFrom ⟨bounds.targetPk, bounds.initialSk, ⟨"", []⟩⟩).takeWhile
      fun e => bounds.inScan e.1.part e.1.sort).filterMap fun e => st.items.lookup e.1.primary

/-- `query`, after its synchronisation. -/
def query (indexName : Option String) (keyCondition : String) (exprAttrValues : Item)
    (scanForward : Bool) (limit : Option ℤ) : List Item :=
  let matched := st.matchedItems (.fromIndexName indexName)
    (scanBounds keyCondition exprAttrValues)
  let ordered := if scanForward then matched else matched.reverse
  match limit with
  | some n => if 0 < n then ordered.take n.toNat else ordered
  | none => ordered

end MbfPartitionStore

/-! ### The full scan -/

/-- The conditions a caller can put on the sort key. -/
inductive KeyCondition
  | partition
  | between (skMin skMax : List Byte)
  | beginsWith (skPrefix : List Byte)

def KeyCondition.Matches (sort : List Byte) : KeyCondition → Prop
  | .partition => True
  | .between skMin skMax => skMin ≤ sort ∧ sort ≤ skMax
  | .beginsWith skPrefix => skPrefix <+: sort

instance (sort : List Byte) : DecidablePred (KeyCondition.Matches sort) := fun cond => by
  cases cond <;> unfold KeyCondition.Matches <;> infer_instance

/-- The text and the values of a query express a condition on a partition. -/
def Expresses (bounds : ScanBounds) (part : String) : KeyCondition → Prop
  | .partition => bounds.targetPk = part ∧ bounds.hasLte = false ∧ bounds.hasPrefix = false ∧
      bounds.skMin = none
  | .between skMin skMax => bounds.targetPk = part ∧ bounds.hasLte = true ∧
      bounds.hasPrefix = false ∧ bounds.skMin = some skMin ∧ bounds.skMax = some skMax
  | .beginsWith skPrefix => bounds.targetPk = part ∧ bounds.hasLte = false ∧
      bounds.hasPrefix = true ∧ bounds.skMin = none ∧ bounds.skPrefix = some skPrefix

/-- An item with the sort key that an index gives it. -/
structure Hit where
  sort : List Byte
  key : PrimaryKey
  item : Item

/-- Ascending in sort key, then in primary key. -/
def Hit.Before (a b : Hit) : Prop := a.sort < b.sort ∨ a.sort = b.sort ∧ a.key < b.key

/-- The index key of an entry of the items. -/
def MbfSecondaryIndex.ownKey (index : MbfSecondaryIndex) (e : PrimaryKey × Item) :
    Option (String × List Byte) :=
  match index with
  | .primaryEavt => some (e.1.pk, e.1.sk)
  | .aevt => extractIndexKey e.2 "ap" "as"
  | .avet => extractIndexKey e.2 "vp" "vs"
  | .vaet => extractIndexKey e.2 "rp" "rs"

/-- The entry as a hit, where its index key lies in the partition and matches. -/
def hitOf (index : MbfSecondaryIndex) (part : String) (cond : KeyCondition)
    (e : PrimaryKey × Item) : Option Hit :=
  (index.ownKey e).bind fun own =>
    if own.1 = part ∧ cond.Matches own.2 then some ⟨own.2, e.1, e.2⟩ else none

def MbfPartitionStore.fullScan (st : MbfPartitionStore) (index : MbfSecondaryIndex)
    (part : String) (cond : KeyCondition) : List Hit :=
  st.items.entries.filterMap (hitOf index part cond)

/-! ### The scan is a filter -/

theorem empty_le (s : String) : "" ≤ s := by
  rw [String.le_iff_toList_le]
  exact le_of_prefix List.nil_prefix

section Scan
variable {κ α : Type} [LinearOrder κ] {part : κ → String} {sort : κ → List Byte}
  {bounds : ScanBounds} {target : String} {cond : KeyCondition}

/-- From the initial sort key on, the test of the scan is the condition. -/
theorem inScan_iff (h : Expresses bounds target cond) {p : String} {s : List Byte} :
    bounds.inScan p s = true ∧ bounds.initialSk ≤ s ↔ p = target ∧ cond.Matches s := by
  cases cond with
  | partition =>
    obtain ⟨rfl, hlte, hprefix, hmin⟩ := h
    have hnil : [] ≤ s := le_of_prefix List.nil_prefix
    simp [ScanBounds.inScan, ScanBounds.initialSk, hlte, hprefix, hmin, KeyCondition.Matches, hnil]
  | between skMin skMax =>
    obtain ⟨rfl, hlte, hprefix, hmin, hmax⟩ := h
    simp only [ScanBounds.inScan, ScanBounds.initialSk, hlte, hprefix, hmin, hmax,
      KeyCondition.Matches]
    simp
    tauto
  | beginsWith skPrefix =>
    obtain ⟨rfl, hlte, hprefix, hmin, hp⟩ := h
    simp only [ScanBounds.inScan, ScanBounds.initialSk, hlte, hprefix, hmin, hp,
      KeyCondition.Matches]
    simp
    intro _ hpre
    exact le_of_prefix hpre

/-- Past the initial sort key, an entry before one that passes the test passes it. -/
theorem inScan_of_le (h : Expresses bounds target cond) {s t : List Byte}
    (hs : bounds.initialSk ≤ s) (hst : s ≤ t) (ht : bounds.inScan target t = true) :
    bounds.inScan target s = true := by
  have hmatch := (inScan_iff h).mp ⟨ht, hs.trans hst⟩
  apply And.left
  rw [inScan_iff h]
  refine ⟨rfl, ?_⟩
  cases cond with
  | partition => trivial
  | between skMin skMax =>
    obtain ⟨_, _, _, hmin, _⟩ := h
    rw [ScanBounds.initialSk, hmin] at hs
    exact ⟨hs, hst.trans hmatch.2.2⟩
  | beginsWith skPrefix =>
    obtain ⟨_, _, hprefix, hmin, hp⟩ := h
    simp only [ScanBounds.initialSk, hmin, hprefix, hp, Option.getD_some, if_true] at hs
    exact prefix_of_between hs hst hmatch.2

/-- A scan of a tree ordered by partition and sort key, from the first key of the
condition, is the filter by the condition. -/
theorem scan_eq_filter (m : OrdMap κ α) (h : Expresses bounds target cond)
    (hmono : ∀ a b : κ, a < b → part a < part b ∨ part a = part b ∧ sort a ≤ sort b) (start : κ)
    (hstart : ∀ k, start ≤ k ↔ target < part k ∨ target = part k ∧ bounds.initialSk ≤ sort k) :
    (m.rangeFrom start).takeWhile (fun e => bounds.inScan (part e.1) (sort e.1)) =
      m.entries.filter fun e => decide (part e.1 = target ∧ cond.Matches (sort e.1)) := by
  have htarget {p : String} {s : List Byte} (hp : bounds.inScan p s = true) : p = target := by
    have hpk : bounds.targetPk = target := by cases cond <;> exact h.1
    simp only [ScanBounds.inScan, Bool.and_eq_true, decide_eq_true_eq] at hp
    exact hp.1.1.trans hpk
  have hsorted := m.rangeFrom_sorted start
  rw [OrdMap.takeWhile_eq_filter hsorted, OrdMap.rangeFrom_eq_filter, List.filter_filter]
  · apply List.filter_congr
    intro e _
    rw [Bool.eq_iff_iff]
    simp only [Bool.and_eq_true, decide_eq_true_eq, hstart, ← inScan_iff h]
    constructor
    · rintro ⟨hin, hlt | ⟨_, hle⟩⟩
      · exact absurd (htarget hin) hlt.ne'
      · exact ⟨hin, hle⟩
    · rintro ⟨hin, hle⟩
      exact ⟨hin, Or.inr ⟨(htarget hin).symm, hle⟩⟩
  · -- an entry between the start and one that passes lies in the partition too
    intro a ha b _ hab hb
    have hb' := htarget hb
    rw [OrdMap.rangeFrom_eq_filter, List.mem_filter, decide_eq_true_eq, hstart] at ha
    rcases ha.2 with hlt | ⟨heq, hle⟩
    · rcases hmono a.1 b.1 hab with hp | ⟨hp, _⟩
      · exact absurd (hlt.trans hp) (by rw [hb']; exact lt_irrefl _)
      · exact absurd hlt (by rw [hp, hb']; exact lt_irrefl _)
    · rcases hmono a.1 b.1 hab with hp | ⟨_, hs⟩
      · exact absurd hp (by rw [← heq, hb']; exact lt_irrefl _)
      · rw [← heq]
        rw [hb'] at hb
        exact inScan_of_le h hle hs hb

end Scan

/-! ### The starts of the two kinds of tree -/

theorem primary_mono (a b : PrimaryKey) (h : a < b) :
    a.pk < b.pk ∨ a.pk = b.pk ∧ a.sk ≤ b.sk :=
  (PrimaryKey.lt_iff.mp h).imp_right fun hab => ⟨hab.1, hab.2.le⟩

theorem index_mono (a b : IndexKey) (h : a < b) :
    a.part < b.part ∨ a.part = b.part ∧ a.sort ≤ b.sort :=
  (IndexKey.lt_iff.mp h).imp_right fun hab =>
    ⟨hab.1, hab.2.elim le_of_lt fun heq => heq.1.le⟩

theorem index_start_le (target : String) (sk : List Byte) (k : IndexKey) :
    (⟨target, sk, ⟨"", []⟩⟩ : IndexKey) ≤ k ↔ target < k.part ∨ target = k.part ∧ sk ≤ k.sort := by
  have hbot : (⟨"", []⟩ : PrimaryKey) ≤ k.primary := by
    rw [PrimaryKey.le_iff]
    rcases (empty_le k.primary.pk).lt_or_eq with hlt | heq
    · exact Or.inl hlt
    · exact Or.inr ⟨heq, le_of_prefix List.nil_prefix⟩
  rw [IndexKey.le_iff, le_iff_lt_or_eq (a := sk)]
  simp [hbot]

/-! ### Hits in order -/

section Hits
variable {st : MbfPartitionStore} {index : MbfSecondaryIndex} {part : String}
  {cond : KeyCondition}

theorem mem_fullScan {hit : Hit} :
    hit ∈ st.fullScan index part cond ↔ st.items.lookup hit.key = some hit.item ∧
      index.ownKey (hit.key, hit.item) = some (part, hit.sort) ∧ cond.Matches hit.sort := by
  simp only [MbfPartitionStore.fullScan, List.mem_filterMap, hitOf, Option.bind_eq_some_iff,
    OrdMap.lookup_eq_some]
  constructor
  · rintro ⟨e, he, own, hown, hhit⟩
    split_ifs at hhit with hif
    obtain ⟨rfl, hmatch⟩ := hif
    cases hhit
    exact ⟨he, hown, hmatch⟩
  · rintro ⟨he, hown, hmatch⟩
    exact ⟨_, he, _, hown, by simp [hmatch]⟩

theorem fullScan_nodup : (st.fullScan index part cond).Nodup := by
  have hkeys : (st.fullScan index part cond).Pairwise fun a b => a.key ≠ b.key := by
    apply List.Pairwise.filterMap _ _ st.items.sorted
    intro e f hlt hit hhit hit' hhit'
    simp only [hitOf, Option.bind_eq_some_iff] at hhit hhit'
    obtain ⟨_, _, hhit⟩ := hhit
    obtain ⟨_, _, hhit'⟩ := hhit'
    split_ifs at hhit hhit'
    cases hhit
    cases hhit'
    exact hlt.ne
  exact hkeys.imp fun hne heq => hne (congrArg Hit.key heq)

theorem Hit.before_nodup {hits : List Hit} (h : hits.Pairwise Hit.Before) : hits.Nodup := by
  apply h.imp
  rintro a b hab rfl
  rcases hab with hlt | ⟨_, hlt⟩ <;> exact lt_irrefl _ hlt

/-- A sorted list with the members of the full scan is the full scan, sorted. -/
theorem perm_fullScan {hits : List Hit} (hsorted : hits.Pairwise Hit.Before)
    (hmem : ∀ hit, hit ∈ hits ↔ st.items.lookup hit.key = some hit.item ∧
      index.ownKey (hit.key, hit.item) = some (part, hit.sort) ∧ cond.Matches hit.sort) :
    hits.Perm (st.fullScan index part cond) := by
  apply (List.perm_ext_iff_of_nodup (Hit.before_nodup hsorted) fullScan_nodup).mpr
  intro hit
  rw [hmem, mem_fullScan]

/-- The primary tree yields the hits of the full scan in order. -/
theorem matchedItems_primary {bounds : ScanBounds} (h : Expresses bounds part cond) :
    ∃ hits : List Hit, hits.Perm (st.fullScan .primaryEavt part cond) ∧ hits.Pairwise Hit.Before ∧
      st.matchedItems .primaryEavt bounds = hits.map Hit.item := by
  have hpk : bounds.targetPk = part := by cases cond <;> exact h.1
  have hscan := scan_eq_filter st.items h primary_mono
    ⟨bounds.targetPk, bounds.initialSk⟩ (fun k => by rw [PrimaryKey.le_iff, hpk])
  refine ⟨(st.items.entries.filter fun e => decide (e.1.pk = part ∧ cond.Matches e.1.sk)).map
    fun e => ⟨e.1.sk, e.1, e.2⟩, ?_⟩
  have hsorted : ((st.items.entries.filter fun e =>
      decide (e.1.pk = part ∧ cond.Matches e.1.sk)).map
        fun e => (⟨e.1.sk, e.1, e.2⟩ : Hit)).Pairwise Hit.Before := by
    rw [List.pairwise_map]
    apply List.Pairwise.imp_of_mem _ (st.items.sorted.filter _)
    intro a b ha hb hlt
    have hap := (of_decide_eq_true (List.mem_filter.mp ha).2).1
    have hbp := (of_decide_eq_true (List.mem_filter.mp hb).2).1
    rcases PrimaryKey.lt_iff.mp hlt with hp | ⟨_, hs⟩
    · exact absurd hp (by rw [hap, hbp]; exact lt_irrefl _)
    · exact Or.inl hs
  refine ⟨perm_fullScan hsorted ?_, hsorted, ?_⟩
  · intro hit
    simp only [List.mem_map, List.mem_filter, decide_eq_true_eq, MbfSecondaryIndex.ownKey,
      OrdMap.lookup_eq_some, Option.some.injEq, Prod.mk.injEq]
    constructor
    · rintro ⟨e, ⟨he, hp, hmatch⟩, rfl⟩
      exact ⟨he, ⟨hp, rfl⟩, hmatch⟩
    · rintro ⟨he, ⟨hp, hs⟩, hmatch⟩
      obtain ⟨s, key, item⟩ := hit
      obtain rfl : key.sk = s := hs
      exact ⟨(key, item), ⟨he, hp, hmatch⟩, rfl⟩
  · rw [MbfPartitionStore.matchedItems, hscan, List.map_map]
    rfl

/-- A secondary tree that is exact yields the hits of the full scan in order. -/
theorem matchedItems_secondary {bounds : ScanBounds} {pkAttr skAttr : String}
    (h : Expresses bounds part cond) (hindex : index ≠ .primaryEavt)
    (hown : ∀ e, index.ownKey e = extractIndexKey e.2 pkAttr skAttr)
    (hexact : TreeExact st.items (st.tree index) pkAttr skAttr) :
    ∃ hits : List Hit, hits.Perm (st.fullScan index part cond) ∧ hits.Pairwise Hit.Before ∧
      st.matchedItems index bounds = hits.map Hit.item := by
  have hpk : bounds.targetPk = part := by cases cond <;> exact h.1
  have hscan := scan_eq_filter (st.tree index) h index_mono
    ⟨bounds.targetPk, bounds.initialSk, ⟨"", []⟩⟩
    (fun k => by rw [index_start_le, hpk])
  have hmatched : st.matchedItems index bounds =
      (((st.tree index).entries.filter fun e =>
        decide (e.1.part = part ∧ cond.Matches e.1.sort)).filterMap
          fun e => (st.items.lookup e.1.primary).map fun item =>
            (⟨e.1.sort, e.1.primary, item⟩ : Hit)).map Hit.item := by
    rw [← hscan, List.map_filterMap]
    cases index with
    | primaryEavt => exact absurd rfl hindex
    | aevt => simp [MbfPartitionStore.matchedItems, Function.comp_def]
    | avet => simp [MbfPartitionStore.matchedItems, Function.comp_def]
    | vaet => simp [MbfPartitionStore.matchedItems, Function.comp_def]
  rw [hmatched]
  have hsorted : (((st.tree index).entries.filter fun e =>
      decide (e.1.part = part ∧ cond.Matches e.1.sort)).filterMap
        fun e => (st.items.lookup e.1.primary).map fun item =>
          (⟨e.1.sort, e.1.primary, item⟩ : Hit)).Pairwise Hit.Before := by
    apply List.Pairwise.filterMap (R := fun a b : IndexKey × Unit => a.1.part = part ∧
      b.1.part = part ∧ a.1 < b.1)
    · rintro a b ⟨hap, hbp, hlt⟩ hit hhit hit' hhit'
      obtain ⟨_, _, rfl⟩ := Option.map_eq_some_iff.mp hhit
      obtain ⟨_, _, rfl⟩ := Option.map_eq_some_iff.mp hhit'
      rcases IndexKey.lt_iff.mp hlt with hp | ⟨_, hs⟩
      · exact absurd hp (by rw [hap, hbp]; exact lt_irrefl _)
      · exact hs
    · apply List.Pairwise.imp_of_mem _ ((st.tree index).sorted.filter _)
      intro a b ha hb hlt
      exact ⟨(of_decide_eq_true (List.mem_filter.mp ha).2).1,
        (of_decide_eq_true (List.mem_filter.mp hb).2).1, hlt⟩
  refine ⟨_, perm_fullScan hsorted ?_, hsorted, rfl⟩
  intro hit
  obtain ⟨s, key, item⟩ := hit
  have htree := hexact ⟨part, s, key⟩
  simp only [List.mem_filterMap, List.mem_filter, decide_eq_true_eq, Option.map_eq_some_iff,
    Hit.mk.injEq, hown]
  constructor
  · rintro ⟨⟨k, _⟩, ⟨hk, hp, hmatch⟩, item', hitem, rfl, rfl, rfl⟩
    obtain ⟨p, s, key⟩ := k
    obtain rfl : p = part := hp
    have hc : (st.tree index).contains ⟨p, s, key⟩ = true :=
      OrdMap.contains_iff.mpr ⟨(), OrdMap.lookup_eq_some.mpr hk⟩
    obtain ⟨item, hl, hext⟩ := htree.mp hc
    obtain rfl : item = item' := Option.some.inj (hl.symm.trans hitem)
    exact ⟨hl, hext, hmatch⟩
  · rintro ⟨hl, hext, hmatch⟩
    obtain ⟨_, hlk⟩ := OrdMap.contains_iff.mp (htree.mpr ⟨item, hl, hext⟩)
    exact ⟨_, ⟨OrdMap.lookup_eq_some.mp hlk, rfl, hmatch⟩, item, hl, rfl, rfl, rfl⟩

/-- On exact trees every index yields the hits of the full scan in order. -/
theorem matchedItems_exact (index : MbfSecondaryIndex) (hidx : IndexExact st) {bounds : ScanBounds}
    (h : Expresses bounds part cond) :
    ∃ hits : List Hit, hits.Perm (st.fullScan index part cond) ∧ hits.Pairwise Hit.Before ∧
      st.matchedItems index bounds = hits.map Hit.item := by
  cases index with
  | primaryEavt => exact matchedItems_primary h
  | aevt => exact matchedItems_secondary h (by simp) (fun _ => rfl) hidx.aevt
  | avet => exact matchedItems_secondary h (by simp) (fun _ => rfl) hidx.avet
  | vaet => exact matchedItems_secondary h (by simp) (fun _ => rfl) hidx.vaet

end Hits

/-! ### Every store a client can reach -/

/-- What happens to a partition store: the section of an operation, the answer to a
conditional GET, and the serialisation and the end of a flush. -/
inductive StoreEvent
  | operation (op : StoreOp) (nowMs : ℤ)
  | synced (cond : MbfConditionalGet VortexBody) (nowMs : ℤ)
  | serialized
  | flushed (newEtag : String) (nowMs : ℤ)

def storeStep (st : MbfPartitionStore) : StoreEvent → Option MbfPartitionStore
  | .operation op nowMs =>
    match op.commit st nowMs with
    | .changed st' touched _ => some (st'.addDirty touched)
    | .answered _ => some st
  | .synced cond nowMs => some (st.applyConditionalGet nowMs cond)
  | .serialized => some st.serializeFlushArtifacts.1
  | .flushed newEtag nowMs => some (st.recordFlush newEtag nowMs)

/-- A snapshot that is merged holds every key once. -/
def DistinctSnapshot (_ : MbfPartitionStore) : StoreEvent → Prop
  | .synced (.modified payload) _ =>
    ∀ snap, payload.bytes = some snap → (snap.items.map Prod.fst).Nodup
  | _ => True

theorem storeStep_indexExact {st st' : MbfPartitionStore} {event : StoreEvent}
    (h : IndexExact st) (hdistinct : DistinctSnapshot st event)
    (hstep : storeStep st event = some st') : IndexExact st' := by
  cases event with
  | operation op nowMs =>
    simp only [storeStep] at hstep
    cases hop : op.commit st nowMs with
    | changed st'' touched reply =>
      simp only [hop, Option.some.injEq] at hstep
      exact hstep ▸ (h.commit hop).congr rfl rfl rfl rfl
    | answered result =>
      simp only [hop, Option.some.injEq] at hstep
      exact hstep ▸ h
  | synced cond nowMs =>
    cases hstep
    apply h.applyConditionalGet
    rintro payload snap rfl hbytes
    exact hdistinct snap hbytes
  | serialized =>
    cases hstep
    exact h.congr rfl rfl rfl rfl
  | flushed newEtag nowMs =>
    cases hstep
    exact h.congr rfl rfl rfl rfl

/-- In every store a client can reach, a query without limit returns the full scan
of its partition, each item once, in ascending or in descending order. -/
theorem query_exact {st : MbfPartitionStore} (hreach : Run storeStep DistinctSnapshot {} st)
    (indexName : Option String) (keyCondition : String) (exprAttrValues : Item) (part : String)
    (cond : KeyCondition) (hcond : Expresses (scanBounds keyCondition exprAttrValues) part cond)
    (scanForward : Bool) :
    ∃ hits : List Hit,
      hits.Perm (st.fullScan (.fromIndexName indexName) part cond) ∧
      hits.Pairwise Hit.Before ∧
      st.query indexName keyCondition exprAttrValues scanForward none =
        if scanForward then hits.map Hit.item else (hits.map Hit.item).reverse := by
  have hidx : IndexExact st :=
    hreach.invariant (fun _ _ _ h hg hs => storeStep_indexExact h hg hs) IndexExact.empty
  obtain ⟨hits, hperm, hsorted, hmatched⟩ :=
    matchedItems_exact (.fromIndexName indexName) hidx hcond
  refine ⟨hits, hperm, hsorted, ?_⟩
  rw [MbfPartitionStore.query, hmatched]

/-- An item of the attribute-value partition `p` under the sort key `sort`. -/
def valueItem (pk : String) (sort : List Byte) : Item :=
  (((∅ : Item).insert "PK" (.s pk)).insert "vp" (.s "p")).insert "vs" (.b sort)

/-- Two writes, then a prefix query on the attribute-value tree. -/
theorem query_exact_after_two_puts :
    ∃ (st : MbfPartitionStore) (hits : List Hit), storeStep {} (.operation (.putItem (valueItem "a" [1, 2])) 0) =
        some (MbfPartitionStore.insertIndexed {} ⟨"a", []⟩ (valueItem "a" [1, 2])) ∧
      storeStep (MbfPartitionStore.insertIndexed {} ⟨"a", []⟩ (valueItem "a" [1, 2]))
        (.operation (.putItem (valueItem "b" [1])) 0) = some st ∧
      hits.Perm (st.fullScan .avet "p" (.beginsWith [1])) ∧ hits.Pairwise Hit.Before ∧
      st.query (some "AVET") "#pk = :pk AND begins_with(#sk, :sk_prefix)"
        (((∅ : Item).insert ":pk" (.s "p")).insert ":sk_prefix" (.b [1])) true none =
        hits.map Hit.item := by
  have hrun : Run storeStep DistinctSnapshot {} ((MbfPartitionStore.insertIndexed {} ⟨"a", []⟩
      (valueItem "a" [1, 2])).insertIndexed ⟨"b", []⟩ (valueItem "b" [1])) :=
    (Relation.ReflTransGen.single ⟨.operation (.putItem (valueItem "a" [1, 2])) 0, trivial, rfl⟩).tail
      ⟨.operation (.putItem (valueItem "b" [1])) 0, trivial, rfl⟩
  obtain ⟨hits, hperm, hsorted, hquery⟩ := query_exact hrun (some "AVET")
    "#pk = :pk AND begins_with(#sk, :sk_prefix)"
    (((∅ : Item).insert ":pk" (.s "p")).insert ":sk_prefix" (.b [1])) "p" (.beginsWith [1]) (by refine ⟨?_, ?_, ?_, ?_, ?_⟩ <;> decide) true
  exact ⟨_, hits, rfl, rfl, hperm, hsorted, hquery⟩

end MetriEngine.Storage
