import MetriEngine.Eav.History

/-!
# Time travel

A pull as of a transaction caps the sort keys of the partition with one key, the largest
attribute id followed by the transaction. The keys sort by attribute before transaction,
so the cap cuts the later transactions of that one attribute id, and of no other.
-/
namespace MetriEngine.Eav
open Foundation Storage

/-! ### What the cap cuts -/

/-- A key is under the cap unless it has the largest attribute id and a later transaction. -/
theorem buildEavtSk_le_cap_iff {attrId : U16} {txId asOfTx : U64} {op : Bool} :
    buildEavtSk attrId txId op ≤ eavtSkAsOf 0xFFFF asOfTx ↔ (attrId = 0xFFFF → txId ≤ asOfTx) := by
  have hlast : ¬ (0xFFFF : U16) < attrId := by
    have := attrId.isLt
    rw [Fin.lt_def]
    simp only [Fin.isValue, not_lt]
    change attrId.val ≤ 65535
    omega
  rw [← not_lt, eavtSkAsOf, buildEavtSk_lt_iff]
  constructor
  · intro h heq
    by_contra hlt
    exact h (Or.inr ⟨heq.symm, Or.inl (not_le.mp hlt)⟩)
  · rintro h (hlt | ⟨heq, hlt | ⟨_, hop⟩⟩)
    · exact hlast hlt
    · exact absurd (h heq.symm) (not_le.mpr hlt)
    · exact absurd hop (by cases op <;> decide)

/-- The ids that the registry knows are the largest one with their names. -/
theorem CodeRegistry.Sound.last_iff {registry : CodeRegistry} (h : registry.Sound) {attrId : U16}
    (hregistered : registry.getAttrName attrId ≠ none) :
    attrId = 0xFFFF ↔ hashAttrName (registry.shownName attrId) = 0xFFFF := by
  obtain ⟨name, hname⟩ := Option.ne_none_iff_exists'.mp hregistered
  have hshown : registry.shownName attrId = name := by
    rw [CodeRegistry.shownName, hname, Option.getD_some]
  rw [hshown]
  rcases h.named attrId name hname with rfl | hsystem
  · rfl
  · have hreserved : ∀ e ∈ systemAttrs, e.1 ≠ 0xFFFF ∧ hashAttrName e.2 ≠ 0xFFFF := by decide
    obtain ⟨hid, hhash⟩ := hreserved _ hsystem
    exact iff_of_false hid hhash

/-! ### What a pull as of a transaction shows -/

section AsOf
variable [F64Text] {registry : CodeRegistry} {table : String} {w : EavHistory}
  {tenantId entityId : String} {attrs : Option (List String)}

/-- The entries that a pull takes under a name have the largest id exactly where that is
the hash of the name. -/
theorem DatomStore.takenAt_last_iff {items : OrdMap PrimaryKey Item}
    (h : DatomStore registry items) (hsound : registry.Sound) {pk name : String} {key : PrimaryKey}
    {item : Item} (hitem : items.lookup key = some item)
    (htaken : takenAt (shownTake registry) pk name key item ≠ none) :
    ∃ attrId txId op, key.sk = buildEavtSk attrId txId op ∧
      (attrId = 0xFFFF ↔ hashAttrName name = 0xFFFF) := by
  obtain ⟨c, hc⟩ := Option.ne_none_iff_exists'.mp htaken
  obtain ⟨d, rfl, rfl, hregistered, _, hname, rfl⟩ := h.takenAt_origin _ hitem hc
  refine ⟨d.attrId, d.txId, d.op, rfl, ?_⟩
  have hshown : registry.shownName d.attrId = name := hname
  rw [hsound.last_iff hregistered, hshown]

/-- Under the largest id, what is left under the cap is what there was then. -/
theorem EavHistory.Inv.taken_last (h : EavHistory.Inv registry w) (hsound : registry.Sound)
    {asOfTx : U64} {pk name : String} (hlast : hashAttrName name = 0xFFFF) (key : PrimaryKey) :
    ((w.store.items.lookup key).bind fun item => if key.sk ≤ eavtSkAsOf 0xFFFF asOfTx then
        takenAt (shownTake registry) pk name key item else none) =
      ((w.storeAsOf asOfTx).items.lookup key).bind (takenAt (shownTake registry) pk name key) := by
  by_cases hlog : ∃ attrId txId op, key.sk = buildEavtSk attrId txId op
  · obtain ⟨attrId, txId, op, hkey⟩ := hlog
    rw [h.lookup_storeAsOf asOfTx hkey]
    cases hitem : w.store.items.lookup key with
    | none => simp
    | some item =>
      by_cases htaken : takenAt (shownTake registry) pk name key item = none
      · split_ifs <;> simp [htaken]
      · obtain ⟨attrId', txId', op', hkey', hid⟩ := h.datoms.takenAt_last_iff hsound hitem htaken
        obtain ⟨rfl, rfl, rfl⟩ := buildEavtSk_inj.mp (hkey.symm.trans hkey')
        have hcap : key.sk ≤ eavtSkAsOf 0xFFFF asOfTx ↔ txId ≤ asOfTx := by
          rw [hkey, buildEavtSk_le_cap_iff]
          exact ⟨fun hle => hle (hid.mpr hlast), fun hle _ => hle⟩
        simp only [hcap, Option.bind_some]
        split_ifs <;> rfl
  · -- no reader takes what is not an entry of the log
    have hnone : ∀ items, DatomStore registry items →
        (items.lookup key).bind (takenAt (shownTake registry) pk name key) = none := by
      intro items hitems
      by_contra hsome
      obtain ⟨c, hc⟩ := Option.ne_none_iff_exists'.mp hsome
      obtain ⟨item, hitem, htaken⟩ := Option.bind_eq_some_iff.mp hc
      obtain ⟨attrId, txId, op, hkey, _⟩ := hitems.takenAt_last_iff hsound hitem
        (by rw [htaken]; exact Option.some_ne_none _)
      exact hlog ⟨attrId, txId, op, hkey⟩
    rw [hnone _ (h.datoms_storeAsOf asOfTx)]
    split_ifs
    · exact hnone _ h.datoms
    · simp

/-- Under any other id, the cap cuts nothing. -/
theorem DatomStore.taken_under_cap {items : OrdMap PrimaryKey Item}
    (h : DatomStore registry items) (hsound : registry.Sound) {asOfTx : U64} {pk name : String}
    (hlast : hashAttrName name ≠ 0xFFFF) (key : PrimaryKey) :
    ((items.lookup key).bind fun item => if key.sk ≤ eavtSkAsOf 0xFFFF asOfTx then
        takenAt (shownTake registry) pk name key item else none) =
      (items.lookup key).bind (takenAt (shownTake registry) pk name key) := by
  cases hitem : items.lookup key with
  | none => rfl
  | some item =>
    rw [Option.bind_some, Option.bind_some]
    by_cases htaken : takenAt (shownTake registry) pk name key item = none
    · rw [htaken, ite_self]
    · obtain ⟨attrId, txId, op, hkey, hid⟩ := h.takenAt_last_iff hsound hitem htaken
      apply if_pos
      rw [hkey, buildEavtSk_le_cap_iff]
      intro heq
      exact absurd (hid.mp heq) hlast

/-- An attribute with the largest id is shown as of the transaction, any other as of now. -/
theorem EavHistory.Inv.pullAsOf_lookup (h : EavHistory.Inv registry w) (hsound : registry.Sound)
    (asOfTx : U64) (name : String) :
    (pullAsOf registry w.store tenantId entityId asOfTx attrs).lookup name =
      if hashAttrName name = 0xFFFF then
        (pull registry (w.storeAsOf asOfTx) tenantId entityId attrs).lookup name
      else (pull registry w.store tenantId entityId attrs).lookup name := by
  have hthen : (pull registry (w.storeAsOf asOfTx) tenantId entityId attrs).lookup name =
      if asksFor attrs name then valueBy (takenAt (shownTake registry) (eavtPk tenantId entityId)
        name) (w.storeAsOf asOfTx).items else none := (h.datoms_storeAsOf asOfTx).pull_lookup name
  rw [hthen, h.datoms.pull_lookup, h.datoms.pullAsOf_lookup]
  by_cases hlast : hashAttrName name = 0xFFFF
  · rw [if_pos hlast, valueBy_congr (h.taken_last hsound hlast)]
  · rw [if_neg hlast, valueBy_congr (h.datoms.taken_under_cap hsound hlast)]

/-- A pull as of a transaction shows what a pull right after it showed exactly where
nothing it shows has changed since, attributes with the largest id apart. -/
theorem pullAsOf_eq_pull_iff [Derived] [KeyHash] {models : List EntityModel}
    (hbuild : CodeRegistry.build models = .ok registry)
    (hrun : Run (EavHistory.step registry table) EavHistory.Successive EavHistory.start w)
    (tenantId entityId : String) (asOfTx : U64) (attrs : Option (List String)) :
    pullAsOf registry w.store tenantId entityId asOfTx attrs =
        pull registry (w.storeAsOf asOfTx) tenantId entityId attrs ↔
      ∀ name, hashAttrName name ≠ 0xFFFF →
        (pull registry w.store tenantId entityId attrs).lookup name =
          (pull registry (w.storeAsOf asOfTx) tenantId entityId attrs).lookup name := by
  have hsound := CodeRegistry.build_sound hbuild
  have hlookup (name : String) : (pullAsOf registry w.store tenantId entityId asOfTx attrs).lookup
      name = if hashAttrName name = 0xFFFF then
        (pull registry (w.storeAsOf asOfTx) tenantId entityId attrs).lookup name
      else (pull registry w.store tenantId entityId attrs).lookup name :=
    (EavHistory.inv_of_run hsound hrun).pullAsOf_lookup hsound asOfTx name
  constructor
  · intro heq name hlast
    rw [← heq, hlookup, if_neg hlast]
  · intro hsame
    apply OrdMap.ext
    intro name
    rw [hlookup]
    split_ifs with hlast
    · rfl
    · exact hsame name hlast

end AsOf

/-! ### Two histories of notes -/

/-- A call that writes the title of a note. -/
def noteCall (op : TransactOp) (entityId title : String) (txId : U64) : TransactCall where
  payload := {
    tenantId := "t"
    entityId := some entityId
    entityType := "note"
    attrs := ⟨[("title", .str title)], by simp⟩
    op := op
    suppressEvents := true }
  txId := txId
  freshEntityId := "f"
  mutationUlid := "m"
  nowMs := ⟨0, Signed.zero_bounds⟩
  rowMs := ⟨0, Signed.zero_bounds⟩
  metaMs := ⟨0, Signed.zero_bounds⟩

abbrev noteStep : EavHistory → TransactCall → Option EavHistory :=
  @EavHistory.step bitsText plainDerived plainHash noteRegistry "metri"

/-- A note is shown as it was while only another note is written. -/
theorem untouched_note_as_of :
    ∃ w, Run noteStep EavHistory.Successive EavHistory.start w ∧
      w.commits.map Prod.fst = [1, 2] ∧
      @pullAsOf bitsText noteRegistry w.store "t" "e" 1 none =
        @pull bitsText noteRegistry (w.storeAsOf 1) "t" "e" none := by
  have hexec : (exec noteStep EavHistory.Successive EavHistory.start
      [noteCall .create "e" "a" 1, noteCall .create "e'" "b" 2]).any
      (fun w => decide (w.commits.map Prod.fst = [1, 2] ∧
        @pull bitsText noteRegistry w.store "t" "e" none =
          @pull bitsText noteRegistry (w.storeAsOf 1) "t" "e" none)) = true := by
    decide +kernel
  obtain ⟨w, hrun, hw⟩ := exists_run_of_exec hexec
  obtain ⟨hcommits, hsame⟩ := of_decide_eq_true hw
  refine ⟨w, hrun, hcommits, ?_⟩
  apply (@pullAsOf_eq_pull_iff bitsText noteRegistry "metri" w plainDerived plainHash [noteModel]
    CodeRegistry.build_note hrun "t" "e" 1 none).mpr
  intro name _
  rw [hsame]

/-- A note is shown as of its creation with the title that a later update gave it. -/
theorem later_update_shows_as_of :
    ∃ w, Run noteStep EavHistory.Successive EavHistory.start w ∧
      w.commits.map Prod.fst = [1, 2] ∧
      (@pullAsOf bitsText noteRegistry w.store "t" "e" 1 none).lookup "title" = some (.str "b") ∧
      (@pull bitsText noteRegistry (w.storeAsOf 1) "t" "e" none).lookup "title" =
        some (.str "a") := by
  have hexec : (exec noteStep EavHistory.Successive EavHistory.start
      [noteCall .create "e" "a" 1, noteCall .update "e" "b" 2]).any
      (fun w => decide (w.commits.map Prod.fst = [1, 2] ∧
        (@pullAsOf bitsText noteRegistry w.store "t" "e" 1 none).lookup "title" =
          some (.str "b") ∧
        (@pull bitsText noteRegistry (w.storeAsOf 1) "t" "e" none).lookup "title" =
          some (.str "a"))) = true := by
    decide +kernel
  obtain ⟨w, hrun, hw⟩ := exists_run_of_exec hexec
  exact ⟨w, hrun, of_decide_eq_true hw⟩

end MetriEngine.Eav
