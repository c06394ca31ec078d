import MetriEngine.Aegis.Hydrator
import MetriEngine.Eav.EntityIds

/-!
# The keys of a row

A column of an entity goes under its own name and, where the name has a namespace, under the name
without it; the times of an event go under two more names. The columns are written in the order of
a hash map, so the row is the same for every order where the columns that share a key agree.
-/
namespace MetriEngine.Aegis
open Foundation Storage Eav

/-! ### Output keys -/

/-- The names that a column goes under before its own. -/
def bareKeys (k : String) : List String :=
  if '/' ∈ k.toList ∧ bareName k ≠ "" then
    if bareName k = "id" then if k = "tenant/id" then ["tenant_id"] else []
    else if bareName k = "type" then if k ≠ "entity/type" then [bareName k] else []
    else [bareName k]
  else []

def columnKeys (k : String) : List String := bareKeys k ++ [k]

/-- The names that clients know the time `name` of an event by. -/
def aliasKeys (name snake camel k : String) : List String :=
  if k = name then [snake, camel] else []

/-- All that a column goes under. -/
def outputKeys (k : String) : List String :=
  columnKeys k ++ aliasKeys "meta/created_at" "created_at" "createdAt" k ++
    aliasKeys "meta/updated_at" "updated_at" "updatedAt" k

/-- Only the own name of a column has a slash. -/
def OwnSlash (keys : String → List String) : Prop :=
  ∀ k, k ∈ keys k ∧ ∀ key ∈ keys k, '/' ∈ key.toList → key = k

theorem ownSlash_columnKeys : OwnSlash columnKeys := by
  intro k
  refine ⟨by simp [columnKeys], fun key hkey hslash => ?_⟩
  have hbare := slash_notMem_bareName k
  rcases List.mem_append.mp hkey with hkey | hkey
  · rw [bareKeys] at hkey
    split_ifs at hkey <;> simp only [List.mem_singleton, List.not_mem_nil] at hkey
    · rw [hkey] at hslash
      exact absurd hslash (by decide)
    all_goals
      rw [hkey] at hslash
      exact absurd hslash hbare
  · exact List.mem_singleton.mp hkey

theorem OwnSlash.append {keys : String → List String} (h : OwnSlash keys)
    {name snake camel : String} (hsnake : '/' ∉ snake.toList) (hcamel : '/' ∉ camel.toList) :
    OwnSlash fun k => keys k ++ aliasKeys name snake camel k := by
  intro k
  refine ⟨List.mem_append_left _ (h k).1, fun key hkey hslash => ?_⟩
  rcases List.mem_append.mp hkey with hkey | hkey
  · exact (h k).2 key hkey hslash
  · rw [aliasKeys] at hkey
    split_ifs at hkey
    · rcases List.mem_pair.mp hkey with rfl | rfl
      · exact absurd hslash hsnake
      · exact absurd hslash hcamel
    · cases hkey

section Rows
variable [Codecs] (registry : CodeRegistry)

/-- What a column writes. -/
def columnWrites (e : String × DatomValue) : List (String × JsonValue) :=
  (columnKeys e.1).map fun k => (k, columnValue registry e.1 e.2)

theorem addColumn_eq (row : JsonMap) (e : String × DatomValue) :
    addColumn registry row e = row.insertList (columnWrites registry e) := by
  rw [columnWrites, columnKeys, List.map_append, OrdMap.insertList_append, addColumn, bareKeys]
  split_ifs <;> rfl

theorem foldl_addColumn (entries : List (String × DatomValue)) (row : JsonMap) :
    entries.foldl (addColumn registry) row =
      row.insertList (entries.flatMap (columnWrites registry)) := by
  induction entries generalizing row with
  | nil => rfl
  | cons e rest ih =>
    rw [List.foldl_cons, ih, addColumn_eq, List.flatMap_cons, OrdMap.insertList_append]

/-- The row has the keys of the columns, and under each the value of a column of that key. -/
structure FiledUnder (keys : String → List String) (entries : List (String × DatomValue))
    (row : JsonMap) : Prop where
  complete : ∀ e ∈ entries, ∀ k ∈ keys e.1, row.lookup k ≠ none
  sound : ∀ k v, row.lookup k = some v →
    ∃ e ∈ entries, k ∈ keys e.1 ∧ v = columnValue registry e.1 e.2

theorem filedUnder_columns (entries : List (String × DatomValue)) :
    FiledUnder registry columnKeys entries (entries.foldl (addColumn registry) ∅) := by
  have hmem : ∀ k v, (k, v) ∈ entries.flatMap (columnWrites registry) ↔
      ∃ e ∈ entries, k ∈ columnKeys e.1 ∧ v = columnValue registry e.1 e.2 := by
    intro k v
    simp only [List.mem_flatMap, columnWrites, List.mem_map, Prod.mk.injEq]
    constructor
    · rintro ⟨e, he, key, hkey, rfl, rfl⟩
      exact ⟨e, he, hkey, rfl⟩
    · rintro ⟨e, he, hkey, rfl⟩
      exact ⟨e, he, k, hkey, rfl, rfl⟩
  rw [foldl_addColumn]
  constructor
  · intro e he k hk hnone
    have hfiled := (hmem k _).mpr ⟨e, he, hk, rfl⟩
    exact ((OrdMap.lookup_insertList_eq_none _).mp hnone).2 (List.mem_map_of_mem hfiled)
  · intro k v hlookup
    rcases OrdMap.mem_of_lookup_insertList hlookup with hfiled | hempty
    · exact (hmem k v).mp hfiled
    · cases hempty

variable {registry}

/-- The further names of a time hold its value. -/
theorem FiledUnder.addAliases {keys : String → List String}
    {entries : List (String × DatomValue)} {row : JsonMap} (h : FiledUnder registry keys entries row)
    (hown : OwnSlash keys) (name snake camel : String) (hname : '/' ∈ name.toList) :
    FiledUnder registry (fun k => keys k ++ aliasKeys name snake camel k) entries
      (Aegis.addAliases name snake camel row) := by
  cases hlookup : row.lookup name with
  | none =>
    have habsent : ∀ e ∈ entries, e.1 ≠ name := fun e he heq =>
      h.complete e he name (heq ▸ (hown e.1).1) hlookup
    have hkeys : ∀ e ∈ entries, keys e.1 ++ aliasKeys name snake camel e.1 = keys e.1 := by
      intro e he
      rw [aliasKeys, if_neg (habsent e he), List.append_nil]
    rw [Aegis.addAliases, hlookup]
    constructor
    · intro e he k hk
      rw [hkeys e he] at hk
      exact h.complete e he k hk
    · intro k v hv
      obtain ⟨e, he, hk, hval⟩ := h.sound k v hv
      exact ⟨e, he, List.mem_append_left _ hk, hval⟩
  | some v =>
    obtain ⟨e, he, hk, hval⟩ := h.sound name v hlookup
    have hcol : name = e.1 := (hown e.1).2 name hk hname
    have haliases : aliasKeys name snake camel e.1 = [snake, camel] := if_pos hcol.symm
    rw [Aegis.addAliases, hlookup]
    dsimp only
    constructor
    · intro f hf k hk
      rw [OrdMap.lookup_insert]
      split_ifs with hcamel
      · exact Option.some_ne_none v
      · rw [OrdMap.lookup_insert]
        split_ifs with hsnake
        · exact Option.some_ne_none v
        · rcases List.mem_append.mp hk with hk | hk
          · exact h.complete f hf k hk
          · rw [aliasKeys] at hk
            split_ifs at hk
            · rcases List.mem_pair.mp hk with hk | hk
              · exact absurd hk hsnake
              · exact absurd hk hcamel
            · cases hk
    · intro k w hw
      rw [OrdMap.lookup_insert] at hw
      split_ifs at hw with hcamel
      · cases hw
        exact ⟨e, he, List.mem_append_right _ (by rw [haliases, hcamel]; simp), hval⟩
      · rw [OrdMap.lookup_insert] at hw
        split_ifs at hw with hsnake
        · cases hw
          exact ⟨e, he, List.mem_append_right _ (by rw [haliases, hsnake]; simp), hval⟩
        · obtain ⟨f, hf, hk, hval'⟩ := h.sound k w hw
          exact ⟨f, hf, List.mem_append_left _ hk, hval'⟩

variable (registry)

theorem filedUnder_entityMapToJson [MapOrder] (map : EntityMap) :
    FiledUnder registry outputKeys map.entries (entityMapToJson registry map) := by
  have hcolumns := filedUnder_columns registry (MapOrder.entriesOf map)
  have hcreated := hcolumns.addAliases ownSlash_columnKeys
    "meta/created_at" "created_at" "createdAt" (by decide)
  have hboth := hcreated.addAliases (ownSlash_columnKeys.append (by decide) (by decide))
    "meta/updated_at" "updated_at" "updatedAt" (by decide)
  have hperm := MapOrder.perm map
  constructor
  · intro e he
    exact hboth.complete e (hperm.mem_iff.mpr he)
  · intro k v hv
    obtain ⟨e, he, hk, hval⟩ := hboth.sound k v hv
    exact ⟨e, hperm.mem_iff.mp he, hk, hval⟩

/-! ### Rows that keep every column -/

/-- A number beyond 64 bits is no JSON; its conversion panics. -/
def Renders : DatomValue → Prop
  | .bigInt n => -2 ^ 63 ≤ n.val ∧ n.val < 2 ^ 64
  | _ => True

instance (v : DatomValue) : Decidable (Renders v) := by
  unfold Renders
  split <;> infer_instance

/-- The row of a map; nothing where a value panics. -/
def checkedEntityMapToJson [MapOrder] (map : EntityMap) : Option JsonMap :=
  if ∀ e ∈ map.entries, Renders e.2 then some (entityMapToJson registry map) else none

/-- Every order of the map gives one row, and under each key of a column that column's value. -/
def KeepsColumns (map : EntityMap) : Prop :=
  ∃ row, (∀ order : MapOrder, @checkedEntityMapToJson _ registry order map = some row) ∧
    ∀ e ∈ map.entries, ∀ k ∈ outputKeys e.1, row.lookup k = some (columnValue registry e.1 e.2)

/-- The columns that share a key have one value. -/
def ColumnsAgree (map : EntityMap) : Prop :=
  ∀ e ∈ map.entries, ∀ f ∈ map.entries, ∀ k ∈ outputKeys e.1, k ∈ outputKeys f.1 →
    columnValue registry e.1 e.2 = columnValue registry f.1 f.2

variable {registry}

theorem FiledUnder.lookup_eq {keys : String → List String} {entries : List (String × DatomValue)}
    {row : JsonMap} (h : FiledUnder registry keys entries row)
    (hagree : ∀ e ∈ entries, ∀ f ∈ entries, ∀ k ∈ keys e.1, k ∈ keys f.1 →
      columnValue registry e.1 e.2 = columnValue registry f.1 f.2)
    {e : String × DatomValue} (he : e ∈ entries) {k : String} (hk : k ∈ keys e.1) :
    row.lookup k = some (columnValue registry e.1 e.2) := by
  obtain ⟨v, hv⟩ := Option.ne_none_iff_exists'.mp (h.complete e he k hk)
  obtain ⟨f, hf, hkf, rfl⟩ := h.sound k v hv
  rw [hv, hagree f hf e he k hkf hk]

/-- Columns that agree make one row, whatever the order they are written in. -/
theorem FiledUnder.eq_row {keys : String → List String} {entries : List (String × DatomValue)}
    {row row' : JsonMap} (h : FiledUnder registry keys entries row)
    (h' : FiledUnder registry keys entries row')
    (hagree : ∀ e ∈ entries, ∀ f ∈ entries, ∀ k ∈ keys e.1, k ∈ keys f.1 →
      columnValue registry e.1 e.2 = columnValue registry f.1 f.2) : row = row' := by
  apply OrdMap.ext
  intro k
  cases hk : row.lookup k with
  | some v =>
    obtain ⟨e, he, hke, rfl⟩ := h.sound k v hk
    rw [h'.lookup_eq hagree he hke]
  | none =>
    cases hk' : row'.lookup k with
    | none => rfl
    | some v =>
      obtain ⟨e, he, hke, _⟩ := h'.sound k v hk'
      exact absurd hk (h.complete e he k hke)

variable (registry)

theorem keepsColumns_iff (map : EntityMap) :
    KeepsColumns registry map ↔ (∀ e ∈ map.entries, Renders e.2) ∧ ColumnsAgree registry map := by
  constructor
  · rintro ⟨row, hrow, hown⟩
    constructor
    · have horder := hrow keyOrder
      rw [checkedEntityMapToJson] at horder
      split_ifs at horder with hrenders
      exact hrenders
    · intro e he f hf k hke hkf
      exact Option.some.inj ((hown e he k hke).symm.trans (hown f hf k hkf))
  · rintro ⟨hrenders, hagree⟩
    refine ⟨@entityMapToJson _ registry keyOrder map, fun order => ?_, fun e he k hk => ?_⟩
    · rw [checkedEntityMapToJson, if_pos hrenders]
      have hkept := @filedUnder_entityMapToJson _ registry keyOrder map
      exact congrArg some ((filedUnder_entityMapToJson registry map).eq_row hkept hagree)
    · have hkept := @filedUnder_entityMapToJson _ registry keyOrder map
      exact hkept.lookup_eq hagree he hk

/-- No key belongs to two columns of the map. -/
def KeysApart (map : EntityMap) : Prop :=
  ∀ e ∈ map.entries, ∀ f ∈ map.entries, ∀ k ∈ outputKeys e.1, k ∈ outputKeys f.1 → e.1 = f.1

/-- Columns that share a key disagree with the right values. -/
theorem keysApart_of_columnsAgree {map : EntityMap}
    (h : ∀ map' : EntityMap, (∀ k, map'.contains k = map.contains k) →
      (∀ e ∈ map'.entries, Renders e.2) → ColumnsAgree registry map') : KeysApart map := by
  intro e he f hf k hke hkf
  by_contra hne
  let map' : EntityMap := (map.mapValues fun _ => DatomValue.bool false).insert e.1 (.bool true)
  have hlookup : ∀ key, map'.lookup key =
      if key = e.1 then some (.bool true) else (map.lookup key).map fun _ => DatomValue.bool false := by
    intro key
    rw [OrdMap.lookup_insert, OrdMap.lookup_mapValues]
  have he' : map.lookup e.1 = some e.2 := OrdMap.lookup_eq_some.mpr he
  have hf' : map.lookup f.1 = some f.2 := OrdMap.lookup_eq_some.mpr hf
  have hkeys : ∀ key, map'.contains key = map.contains key := by
    intro key
    rw [OrdMap.contains, hlookup, OrdMap.contains]
    split_ifs with hkey
    · rw [hkey, he']
      rfl
    · rw [Option.isSome_map]
  have hrenders : ∀ g ∈ map'.entries, Renders g.2 := by
    intro g hg
    have hval := OrdMap.lookup_eq_some.mpr hg
    rw [hlookup] at hval
    split_ifs at hval
    · rw [← Option.some.inj hval]
      trivial
    · obtain ⟨v, _, hv⟩ := Option.map_eq_some_iff.mp hval
      rw [← hv]
      trivial
  have hfirst : (e.1, DatomValue.bool true) ∈ map'.entries :=
    OrdMap.lookup_eq_some.mp (by rw [hlookup, if_pos rfl])
  have hsecond : (f.1, DatomValue.bool false) ∈ map'.entries :=
    OrdMap.lookup_eq_some.mp (by rw [hlookup, if_neg (Ne.symm hne), hf']; rfl)
  have hsame := h map' hkeys hrenders _ hfirst _ hsecond k hke hkf
  simp [columnValue] at hsame

theorem columnsAgree_of_keysApart {map : EntityMap} (h : KeysApart map) :
    ColumnsAgree registry map := by
  intro e he f hf k hke hkf
  have hname := h e he f hf k hke hkf
  have hvalue : e.2 = f.2 := by
    apply map.entry_unique he
    rw [hname]
    exact hf
  rw [hname, hvalue]

omit [Codecs] in
theorem keysApart_congr {map map' : EntityMap} (hkeys : ∀ k, map'.contains k = map.contains k)
    (h : KeysApart map) : KeysApart map' := by
  have hentry : ∀ e ∈ map'.entries, ∃ v, (e.1, v) ∈ map.entries := by
    intro e he
    have hsome : map'.contains e.1 = true :=
      OrdMap.contains_iff.mpr ⟨e.2, OrdMap.lookup_eq_some.mpr he⟩
    rw [hkeys] at hsome
    obtain ⟨v, hv⟩ := OrdMap.contains_iff.mp hsome
    exact ⟨v, OrdMap.lookup_eq_some.mp hv⟩
  intro e he f hf k hke hkf
  obtain ⟨v, hv⟩ := hentry e he
  obtain ⟨w, hw⟩ := hentry f hf
  exact h (e.1, v) hv (f.1, w) hw k hke hkf

/-- A map gives one row that keeps every column exactly where the columns that share a key have
one value; a set of columns does so with any values exactly where no two of them share a key. -/
theorem entityMapToJson_iff (map : EntityMap) :
    (KeepsColumns registry map ↔
      (∀ e ∈ map.entries, Renders e.2) ∧ ColumnsAgree registry map) ∧
    ((∀ map' : EntityMap, (∀ k, map'.contains k = map.contains k) →
      (∀ e ∈ map'.entries, Renders e.2) → KeepsColumns registry map') ↔ KeysApart map) := by
  refine ⟨keepsColumns_iff registry map, fun h => ?_, fun h map' hkeys hrenders => ?_⟩
  · apply keysApart_of_columnsAgree registry
    intro map' hkeys hrenders
    exact ((keepsColumns_iff registry map').mp (h map' hkeys hrenders)).2
  · rw [keepsColumns_iff]
    exact ⟨hrenders, columnsAgree_of_keysApart registry (keysApart_congr hkeys h)⟩

end Rows

/-- The order of the keys, the other way round. -/
@[reducible] def reverseKeyOrder : MapOrder :=
  ⟨fun map => map.entries.reverse, fun map => List.reverse_perm map.entries⟩

def twoNames : EntityMap :=
  ((∅ : EntityMap).insert "asset/name" (.str "Plant")).insert "pump/name" (.str "P-7")

/-- The bare name of two columns is the one's or the other's. -/
theorem name_of_two_columns :
    (@entityMapToJson plainCodecs ⟨∅, ∅⟩ keyOrder twoNames).lookup "name" = some (.string "P-7") ∧
    (@entityMapToJson plainCodecs ⟨∅, ∅⟩ reverseKeyOrder twoNames).lookup "name" =
      some (.string "Plant") ∧
    ¬@KeepsColumns plainCodecs ⟨∅, ∅⟩ twoNames := by
  refine ⟨by rfl, by rfl, fun h => ?_⟩
  have hagree := ((@keepsColumns_iff plainCodecs _ _).mp h).2
  have hsame := hagree ("asset/name", .str "Plant") (by decide +kernel) ("pump/name", .str "P-7")
    (by decide +kernel) "name" (by decide +kernel) (by decide +kernel)
  exact absurd hsame (by decide +kernel)

end MetriEngine.Aegis
