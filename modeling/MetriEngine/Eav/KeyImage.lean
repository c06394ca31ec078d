import MetriEngine.Eav.Effects
import MetriEngine.Storage.Wire

/-!
# What is hashed for a unique key

The bytes that are hashed join the names and the values of a key with separators that a value may
hold as well. They tell two keys apart unless a value goes on as the other key does, or two arrays
read alike once their items are joined.
-/
namespace MetriEngine.Eav
open Foundation Storage

/-- The bytes that are hashed for the values of a constraint. -/
def huellaBytes (entity : String) (attributes : List String) (attrs : AttrMap) :
    Option (List Byte) :=
  (attributes.mapM fun name => ((attrs.get name).filter fun v => v ≠ .null).map (huellaAttr name)).map
    fun parts => utf8 entity ++ parts.flatten

/-- The value of an attribute of a key, null if the map lacks it. -/
def AttrMap.keyValue (attrs : AttrMap) (name : String) : DatomValue := (attrs.get name).getD .null

theorem AttrMap.get_of_keyValue {attrs : AttrMap} {name : String}
    (h : attrs.keyValue name ≠ .null) : attrs.get name = some (attrs.keyValue name) := by
  rw [keyValue] at h ⊢
  cases hget : attrs.get name with
  | none =>
    rw [hget] at h
    exact absurd rfl h
  | some v => rfl

/-- What is hashed is the entity and each attribute, as long as the map has them all. -/
theorem huellaBytes_eq_some {entity : String} {attributes : List String} {attrs : AttrMap}
    {bytes : List Byte} :
    huellaBytes entity attributes attrs = some bytes ↔
      (∀ name ∈ attributes, attrs.keyValue name ≠ .null) ∧
      bytes = utf8 entity ++
        (attributes.map fun name => huellaAttr name (attrs.keyValue name)).flatten := by
  have hpart (name : String) :
      ((attrs.get name).filter fun v => v ≠ .null).map (huellaAttr name) =
        if attrs.keyValue name = .null then none
        else some (huellaAttr name (attrs.keyValue name)) := by
    rw [AttrMap.keyValue]
    cases attrs.get name with
    | none => rfl
    | some v =>
      by_cases hv : v = .null
      · simp [hv]
      · simp [hv]
  have hparts : (attributes.mapM fun name =>
      ((attrs.get name).filter fun v => v ≠ .null).map (huellaAttr name)) =
        if ∀ name ∈ attributes, attrs.keyValue name ≠ .null then
          some (attributes.map fun name => huellaAttr name (attrs.keyValue name))
        else none := by
    induction attributes with
    | nil => rfl
    | cons name rest ih =>
      rw [List.mapM_cons, hpart, ih]
      by_cases hname : attrs.keyValue name = .null
      · simp [hname]
      · by_cases hrest : ∀ n ∈ rest, attrs.keyValue n ≠ .null
        · have hall : ∀ n ∈ name :: rest, attrs.keyValue n ≠ .null := by
            intro n hn
            rcases List.mem_cons.mp hn with rfl | hn
            · exact hname
            · exact hrest n hn
          rw [if_pos hrest, if_pos hall, if_neg hname]
          rfl
        · have hnot : ¬ ∀ n ∈ name :: rest, attrs.keyValue n ≠ .null :=
            fun h => hrest fun n hn => h n (List.mem_cons_of_mem _ hn)
          rw [if_neg hrest, if_neg hnot, if_neg hname]
          rfl
  rw [huellaBytes, hparts]
  split_ifs with hall
  · simp only [Option.map_some, Option.some.injEq]
    constructor
    · rintro rfl
      exact ⟨hall, rfl⟩
    · rintro ⟨-, rfl⟩
      rfl
  · simp [hall]

/-! ### The text of a value -/

/-- The items of an array in the text that is hashed. -/
def joinedItems (items : List String) : String :=
  (String.singleton (Char.ofNat 0x1f)).intercalate items

/-- The same value, or two arrays that read alike. -/
def SameText (v w : DatomValue) : Prop :=
  v = w ∨ ∃ a b, v = .array a ∧ w = .array b ∧ joinedItems a = joinedItems b

def DatomValue.IsFloat (v : DatomValue) : Prop := v.valueType = .double ∨ v.valueType = .geo

/-- The letter that tells the type in the text that is hashed. -/
def huellaTag : ValueType → Char
  | .null => 'n'
  | .boolean => 'b'
  | .long => 'i'
  | .bigInt => 'I'
  | .instant => 't'
  | .reference => 'r'
  | .double => '?'
  | .geo => '?'
  | .string => 's'
  | .uuid => 'u'
  | .array => 'a'
  | .bytes => 'y'

theorem huellaValor_head (v : DatomValue) :
    (huellaValor v).toList.head? = some (huellaTag v.valueType) := by
  cases v <;> simp [huellaValor, huellaTag, DatomValue.valueType]

theorem valueType_of_huellaValor {v w : DatomValue} (hv : ¬ v.IsFloat) (hw : ¬ w.IsFloat)
    (h : huellaValor v = huellaValor w) : v.valueType = w.valueType := by
  have htag := congrArg (fun s : String => s.toList.head?) h
  simp only [huellaValor_head, Option.some.injEq] at htag
  rw [DatomValue.IsFloat] at hv hw
  generalize v.valueType = t at *
  generalize w.valueType = u at *
  cases t <;> cases u <;> first | rfl | exact absurd htag (by decide) | simp at hv

theorem Signed.text_injective {w : ℕ} : Function.Injective (Signed.text (w := w)) := by
  intro n m h
  have hparse := Signed.parse_text n
  rw [h, Signed.parse_text] at hparse
  exact (Option.some.inj hparse).symm

theorem hexBytes_toList (bytes : List Byte) :
    (hexBytes bytes).toList =
      bytes.flatMap fun b => [Nat.digitChar (b.val / 16), Nat.digitChar (b.val % 16)] := by
  rw [hexBytes, String.toList_join, List.flatMap_map]
  congr 1
  funext b
  simp

theorem hexBytes_injective : Function.Injective hexBytes := by
  have hdigit : ∀ i j : Fin 16, Nat.digitChar i.val = Nat.digitChar j.val → i = j := by decide
  intro l m h
  have hlist := congrArg String.toList h
  rw [hexBytes_toList, hexBytes_toList] at hlist
  induction l generalizing m with
  | nil =>
    cases m with
    | nil => rfl
    | cons c m => cases hlist
  | cons b l ih =>
    cases m with
    | nil => cases hlist
    | cons c m =>
      simp only [List.flatMap_cons, List.cons_append, List.nil_append, List.cons.injEq] at hlist
      obtain ⟨hhi, hlo, hrest⟩ := hlist
      have hb := b.isLt
      have hc := c.isLt
      have hhi' := hdigit ⟨b.val / 16, by omega⟩ ⟨c.val / 16, by omega⟩ hhi
      have hlo' := hdigit ⟨b.val % 16, by omega⟩ ⟨c.val % 16, by omega⟩ hlo
      rw [Fin.mk.injEq] at hhi' hlo'
      have hbc : b = c := Fin.ext (by omega)
      have hlm : l = m := by
        apply ih
        · rw [← String.toList_inj, hexBytes_toList, hexBytes_toList, hrest]
        · exact hrest
      rw [hbc, hlm]

/-- Two values with one text are the same value or arrays that read alike. -/
theorem huellaValor_eq_iff {v w : DatomValue} (hv : ¬ v.IsFloat) (hw : ¬ w.IsFloat) :
    huellaValor v = huellaValor w ↔ SameText v w := by
  constructor
  · intro h
    have htype := valueType_of_huellaValor hv hw h
    cases v
    case double d => exact absurd (Or.inl rfl) hv
    case geo lat lon => exact absurd (Or.inr rfl) hv
    all_goals cases w <;> cases htype
    case mp.null.null.refl => exact Or.inl rfl
    case mp.bool.bool.refl b c =>
      cases b <;> cases c <;> first | exact Or.inl rfl | exact absurd h (by decide)
    case mp.long.long.refl n m =>
      rw [Signed.text_injective ((String.append_right_inj _).mp h)]
      exact Or.inl rfl
    case mp.instant.instant.refl n m =>
      rw [Signed.text_injective ((String.append_right_inj _).mp h)]
      exact Or.inl rfl
    case mp.bigInt.bigInt.refl n m =>
      rw [Signed.text_injective ((String.append_right_inj _).mp h)]
      exact Or.inl rfl
    case mp.str.str.refl s t =>
      rw [(String.append_right_inj _).mp h]
      exact Or.inl rfl
    case mp.uuid.uuid.refl s t =>
      rw [(String.append_right_inj _).mp h]
      exact Or.inl rfl
    case mp.ref.ref.refl r q =>
      have hrepr : Nat.repr r.val = Nat.repr q.val := (String.append_right_inj _).mp h
      have hparse := parseNat_repr r.val
      rw [hrepr, parseNat_repr] at hparse
      rw [Fin.ext (Option.some.inj hparse)]
      exact Or.inl rfl
    case mp.array.array.refl a b => exact Or.inr ⟨a, b, rfl, rfl, (String.append_right_inj _).mp h⟩
    case mp.bytes.bytes.refl a b =>
      rw [hexBytes_injective ((String.append_right_inj _).mp h)]
      exact Or.inl rfl
  · rintro (rfl | ⟨a, b, rfl, rfl, h⟩)
    · rfl
    · change "a:" ++ joinedItems a = "a:" ++ joinedItems b
      rw [h]

/-! ### Keys that are hashed alike -/

/-- The text of `w` is that of `v` and goes on with the separator of attributes. -/
def Continues (v w : DatomValue) : Prop :=
  utf8 (huellaValor v) ++ [0x1e] <+: utf8 (huellaValor w)

theorem huellaAttr_append (name : String) (v : DatomValue) (rest : List Byte) :
    huellaAttr name v ++ rest =
      (0x1e :: utf8 name ++ [0x1d]) ++ (utf8 (huellaValor v) ++ rest) := by
  simp [huellaAttr]

/-- A text before a separator is cut at its end unless the other text goes on as the separator
does. -/
theorem texts_of_append {v w : DatomValue} {a b : List Byte}
    (h : utf8 (huellaValor v) ++ 0x1e :: a = utf8 (huellaValor w) ++ 0x1e :: b)
    (hvw : ¬ Continues v w) (hwv : ¬ Continues w v) : huellaValor v = huellaValor w ∧ a = b := by
  rcases List.append_eq_append_iff.mp h with ⟨c, hw, ha⟩ | ⟨c, hv, hb⟩
  · cases c with
    | nil =>
      rw [List.append_nil] at hw
      cases ha
      exact ⟨(utf8_injective hw).symm, rfl⟩
    | cons x c =>
      rw [List.cons_append, List.cons.injEq] at ha
      obtain ⟨rfl, -⟩ := ha
      refine absurd ⟨c, ?_⟩ hvw
      rw [hw, List.append_assoc]
      rfl
  · cases c with
    | nil =>
      rw [List.append_nil] at hv
      cases hb
      exact ⟨utf8_injective hv, rfl⟩
    | cons x c =>
      rw [List.cons_append, List.cons.injEq] at hb
      obtain ⟨rfl, -⟩ := hb
      refine absurd ⟨c, ?_⟩ hwv
      rw [hv, List.append_assoc]
      rfl

/-- Keys are hashed alike exactly if their values have the same texts, where none goes on as the
other key does. -/
theorem flatten_huellaAttr_inj {attributes : List String} {f g : String → DatomValue}
    (hapart : ∀ name ∈ attributes.dropLast,
      ¬ Continues (f name) (g name) ∧ ¬ Continues (g name) (f name)) :
    (attributes.map fun name => huellaAttr name (f name)).flatten =
        (attributes.map fun name => huellaAttr name (g name)).flatten ↔
      ∀ name ∈ attributes, huellaValor (f name) = huellaValor (g name) := by
  constructor
  · intro h
    induction attributes with
    | nil =>
      intro name hname
      cases hname
    | cons name rest ih =>
      rw [List.map_cons, List.map_cons, List.flatten_cons, List.flatten_cons, huellaAttr_append,
        huellaAttr_append, List.append_cancel_left_eq] at h
      cases rest with
      | nil =>
        simp only [List.map_nil, List.flatten_nil, List.append_nil] at h
        intro n hn
        rw [List.mem_singleton.mp hn]
        exact utf8_injective h
      | cons next rest =>
        obtain ⟨hfg, hgf⟩ := hapart name List.mem_cons_self
        obtain ⟨hname, hrest⟩ := texts_of_append h hfg hgf
        have htail := ih (fun n hn => hapart n (List.mem_cons_of_mem _ hn))
          (congrArg (List.cons 0x1e) hrest)
        intro n hn
        rcases List.mem_cons.mp hn with rfl | hn
        · exact hname
        · exact htail n hn
  · intro h
    congr 1
    apply List.map_congr_left
    intro name hname
    rw [huellaAttr, huellaAttr, h name hname]

/-- No value of the key is a float. -/
def AttrMap.NoFloat (attrs : AttrMap) (attributes : List String) : Prop :=
  ∀ name ∈ attributes, ¬ (attrs.keyValue name).IsFloat

def AttrMap.NoArray (attrs : AttrMap) (attributes : List String) : Prop :=
  ∀ name ∈ attributes, (attrs.keyValue name).valueType ≠ .array

/-- Hashed alike, two maps agree on the key. -/
def KeysApart (entity : String) (attributes : List String) (m m' : AttrMap) : Prop :=
  ∀ bytes, huellaBytes entity attributes m = some bytes →
    huellaBytes entity attributes m' = some bytes → ∀ name ∈ attributes, m.get name = m'.get name

/-- Both maps have the key, and its values differ only in arrays that read alike. -/
def ArraysAlike (attributes : List String) (m m' : AttrMap) : Prop :=
  (∀ name ∈ attributes, m.keyValue name ≠ .null ∧ m'.keyValue name ≠ .null ∧
    SameText (m.keyValue name) (m'.keyValue name)) ∧
  ∃ name ∈ attributes, m.keyValue name ≠ m'.keyValue name

theorem keysApart_iff (entity : String) {attributes : List String} {m m' : AttrMap}
    (hm : m.NoFloat attributes) (hm' : m'.NoFloat attributes)
    (hapart : ∀ name ∈ attributes.dropLast,
      ¬ Continues (m.keyValue name) (m'.keyValue name) ∧
        ¬ Continues (m'.keyValue name) (m.keyValue name)) :
    KeysApart entity attributes m m' ↔ ¬ ArraysAlike attributes m m' := by
  have htexts := flatten_huellaAttr_inj hapart
  constructor
  · rintro h ⟨hsame, name, hname, hne⟩
    have hbytes : huellaBytes entity attributes m = some _ :=
      huellaBytes_eq_some.mpr ⟨fun n hn => (hsame n hn).1, rfl⟩
    have hbytes' : huellaBytes entity attributes m' = some _ :=
      huellaBytes_eq_some.mpr ⟨fun n hn => (hsame n hn).2.1, rfl⟩
    rw [← htexts.mpr fun n hn => (huellaValor_eq_iff (hm n hn) (hm' n hn)).mpr (hsame n hn).2.2]
      at hbytes'
    apply hne
    rw [AttrMap.keyValue, AttrMap.keyValue, h _ hbytes hbytes' name hname]
  · intro hnot bytes hbytes hbytes' name hname
    obtain ⟨hsome, rfl⟩ := huellaBytes_eq_some.mp hbytes
    obtain ⟨hsome', heq⟩ := huellaBytes_eq_some.mp hbytes'
    have hsame := htexts.mp (List.append_cancel_left heq)
    rw [AttrMap.get_of_keyValue (hsome name hname), AttrMap.get_of_keyValue (hsome' name hname)]
    by_contra hne
    apply hnot
    refine ⟨fun n hn => ⟨hsome n hn, hsome' n hn,
      (huellaValor_eq_iff (hm n hn) (hm' n hn)).mp (hsame n hn)⟩, name, hname, ?_⟩
    intro h
    exact hne (congrArg some h)

/-! ### Maps that collide -/

/-- The map that gives each of some names a value. -/
def AttrMap.ofNames (names : List String) (value : String → DatomValue) : AttrMap where
  entries := names.dedup.map fun name => (name, value name)
  nodup := by
    rw [List.map_map]
    exact (List.map_id' names.dedup).symm ▸ names.nodup_dedup

theorem AttrMap.keyValue_ofNames {names : List String} {value : String → DatomValue}
    {name : String} (h : name ∈ names) : (AttrMap.ofNames names value).keyValue name = value name := by
  have hget : (AttrMap.ofNames names value).get name = some (value name) := by
    rw [AttrMap.get_eq_some]
    exact List.mem_map.mpr ⟨name, List.mem_dedup.mpr h, rfl⟩
  rw [keyValue, hget, Option.getD_some]

/-- Each attribute of a key that holds an empty array reads as if it held one empty text. -/
theorem not_keysApart_of_mem (entity : String) {attributes : List String} {name : String}
    (hname : name ∈ attributes) :
    ¬ KeysApart entity attributes (.ofNames attributes fun _ => .array [])
      (.ofNames attributes fun _ => .array [""]) := by
  intro h
  have hvalue (items : List String) (n : String) (hn : n ∈ attributes) :
      (AttrMap.ofNames attributes fun _ => .array items).keyValue n = .array items :=
    AttrMap.keyValue_ofNames hn
  have hbytes (items : List String) (hitems : joinedItems items = "") :
      huellaBytes entity attributes (.ofNames attributes fun _ => .array items) =
        some (utf8 entity ++ (attributes.map fun n => huellaAttr n (.array [])).flatten) := by
    rw [huellaBytes_eq_some]
    refine ⟨fun n hn => ?_, ?_⟩
    · rw [hvalue items n hn]
      exact DatomValue.noConfusion
    · congr 2
      apply List.map_congr_left
      intro n hn
      rw [hvalue items n hn, huellaAttr, huellaAttr]
      change _ :: utf8 n ++ _ :: utf8 ("a:" ++ joinedItems []) =
        _ :: utf8 n ++ _ :: utf8 ("a:" ++ joinedItems items)
      rw [hitems]
      rfl
  have hagree := h _ (hbytes [] rfl) (hbytes [""] rfl) name hname
  have hempty := congrArg (fun v => v.getD .null) hagree
  change AttrMap.keyValue _ name = AttrMap.keyValue _ name at hempty
  rw [hvalue [] name hname, hvalue [""] name hname] at hempty
  cases hempty

/-- The separators and the name of an attribute, as one attribute's text may hold them. -/
def asNext (name : String) : String := "\x1e" ++ name ++ "\x1ds:"

/-- Two texts in a key may be cut elsewhere where the first goes on as the second attribute. -/
theorem not_keysApart_of_two (entity : String) {a b : String} {rest : List String}
    (hab : a ≠ b) (ha : a ∉ rest) (hb : b ∉ rest) :
    ¬ KeysApart entity (a :: b :: rest)
      (.ofNames (a :: b :: rest) fun n =>
        if n = a then .str "" else if n = b then .str (asNext b) else .str "")
      (.ofNames (a :: b :: rest) fun n => if n = a then .str (asNext b) else .str "") := by
  intro h
  have hbytes (value : String → DatomValue) (hvalue : ∀ n, value n ≠ .null) :
      huellaBytes entity (a :: b :: rest) (.ofNames (a :: b :: rest) value) =
        some (utf8 entity ++ (huellaAttr a (value a) ++ (huellaAttr b (value b) ++
          (rest.map fun n => huellaAttr n (value n)).flatten))) := by
    rw [huellaBytes_eq_some]
    refine ⟨fun n hn => ?_, ?_⟩
    · rw [AttrMap.keyValue_ofNames hn]
      exact hvalue n
    · congr 1
      have hmap : ((a :: b :: rest).map fun n => huellaAttr n
          ((AttrMap.ofNames (a :: b :: rest) value).keyValue n)) =
            (a :: b :: rest).map fun n => huellaAttr n (value n) := by
        apply List.map_congr_left
        intro n hn
        rw [AttrMap.keyValue_ofNames hn]
      rw [hmap]
      rfl
  have hleft := hbytes
    (fun n => if n = a then .str "" else if n = b then .str (asNext b) else .str "")
    (by intro n; split_ifs <;> exact DatomValue.noConfusion)
  have hright := hbytes (fun n => if n = a then .str (asNext b) else .str "")
    (by intro n; split_ifs <;> exact DatomValue.noConfusion)
  have hrest : (rest.map fun n => huellaAttr n
      (if n = a then .str "" else if n = b then .str (asNext b) else .str "")) =
        rest.map fun n => huellaAttr n (if n = a then .str (asNext b) else .str "") := by
    apply List.map_congr_left
    intro n hn
    rw [if_neg (ne_of_mem_of_not_mem hn ha), if_neg (ne_of_mem_of_not_mem hn hb),
      if_neg (ne_of_mem_of_not_mem hn ha)]
  have hcut : huellaAttr a (.str "") ++ huellaAttr b (.str (asNext b)) =
      huellaAttr a (.str (asNext b)) ++ huellaAttr b (.str "") := by
    have hmark : utf8 "\x1e" = [0x1e] ∧ utf8 "\x1ds:" = 0x1d :: utf8 "s:" ∧ utf8 "" = [] := by decide
    simp only [huellaAttr, huellaValor, asNext, utf8_append, hmark]
    simp
  simp only [if_neg hab.symm, if_true] at hleft hright
  rw [hrest, ← List.append_assoc (huellaAttr a _), hcut, List.append_assoc] at hleft
  have hagree := h _ hleft hright a List.mem_cons_self
  have hempty := congrArg (fun v => v.getD .null) hagree
  change AttrMap.keyValue _ a = AttrMap.keyValue _ a at hempty
  rw [AttrMap.keyValue_ofNames List.mem_cons_self, AttrMap.keyValue_ofNames List.mem_cons_self,
    if_pos rfl, if_pos rfl, DatomValue.str.injEq] at hempty
  have hmark : "\x1e".length = 1 ∧ "".length = 0 := ⟨rfl, rfl⟩
  have hlength := congrArg String.length hempty
  rw [asNext, String.length_append, String.length_append] at hlength
  omega

/-- Keys of no attributes are told apart; without arrays those of one attribute are; and of two
maps in which no value goes on as the other key does, unless they differ in arrays that read
alike. -/
theorem keys_apart_iff (entity : String) (attributes : List String) :
    ((∀ m m' : AttrMap, m.NoFloat attributes → m'.NoFloat attributes →
        KeysApart entity attributes m m') ↔ attributes = []) ∧
    (attributes.Nodup →
      ((∀ m m' : AttrMap, m.NoFloat attributes → m'.NoFloat attributes → m.NoArray attributes →
        m'.NoArray attributes → KeysApart entity attributes m m') ↔ attributes.length ≤ 1)) ∧
    ∀ m m' : AttrMap, m.NoFloat attributes → m'.NoFloat attributes →
      (∀ name ∈ attributes.dropLast, ¬ Continues (m.keyValue name) (m'.keyValue name) ∧
        ¬ Continues (m'.keyValue name) (m.keyValue name)) →
      (KeysApart entity attributes m m' ↔ ¬ ArraysAlike attributes m m') := by
  refine ⟨?_, fun hnodup => ?_, fun m m' hm hm' hapart => keysApart_iff entity hm hm' hapart⟩
  · constructor
    · intro h
      by_contra hne
      obtain ⟨name, hname⟩ := List.exists_mem_of_ne_nil _ hne
      apply not_keysApart_of_mem entity hname
      apply h
      all_goals
        intro n hn
        rw [AttrMap.keyValue_ofNames hn]
        simp [DatomValue.IsFloat, DatomValue.valueType]
    · rintro rfl m m' - - bytes - - name hname
      cases hname
  · constructor
    · intro h
      by_contra hlong
      obtain ⟨a, b, rest, rfl⟩ : ∃ a b rest, attributes = a :: b :: rest := by
        rcases attributes with _ | ⟨a, _ | ⟨b, rest⟩⟩
        · exact absurd (Nat.zero_le 1) hlong
        · exact absurd (Nat.le_refl 1) hlong
        · exact ⟨a, b, rest, rfl⟩
      obtain ⟨ha, htail⟩ := List.nodup_cons.mp hnodup
      rw [List.mem_cons, not_or] at ha
      apply not_keysApart_of_two entity ha.1 ha.2 (List.nodup_cons.mp htail).1
      apply h
      all_goals
        intro n hn
        rw [AttrMap.keyValue_ofNames hn]
        split_ifs <;> simp [DatomValue.IsFloat, DatomValue.valueType]
    · intro hshort m m' hm hm' harray _
      have hlast : attributes.dropLast = [] := by
        apply List.eq_nil_of_length_eq_zero
        rw [List.length_dropLast]
        omega
      rw [keysApart_iff entity hm hm' (by rw [hlast]; exact fun _ h => nomatch h)]
      rintro ⟨hsame, name, hname, hne⟩
      rcases (hsame name hname).2.2 with heq | ⟨items, _, hitems, -, -⟩
      · exact hne heq
      · apply harray name hname
        rw [hitems]
        rfl

theorem keys_apart_iff_number :
    KeysApart "work" ["v"] (.ofNames ["v"] fun _ => .str "1")
      (.ofNames ["v"] fun _ => .long ⟨1, by decide⟩) ↔
      ¬ ArraysAlike ["v"] (.ofNames ["v"] fun _ => .str "1")
        (.ofNames ["v"] fun _ => .long ⟨1, by decide⟩) := by
  apply (keys_apart_iff "work" ["v"]).2.2
  · intro n hn
    rw [AttrMap.keyValue_ofNames hn]
    simp [DatomValue.IsFloat, DatomValue.valueType]
  · intro n hn
    rw [AttrMap.keyValue_ofNames hn]
    simp [DatomValue.IsFloat, DatomValue.valueType]
  · intro n hn
    cases hn

/-- Two keys of two attributes, and two of one array, that are hashed alike. -/
theorem keys_hashed_alike :
    (¬ KeysApart "work" ["a", "b"]
      (.ofNames ["a", "b"] fun n => if n = "a" then .str "x" else .str "y\x1eb\x1ds:z")
      (.ofNames ["a", "b"] fun n => if n = "a" then .str "x\x1eb\x1ds:y" else .str "z")) ∧
    ¬ KeysApart "work" ["a"] (.ofNames ["a"] fun _ => .array ["x", "y"])
      (.ofNames ["a"] fun _ => .array ["x\x1fy"]) := by
  constructor
  · intro h
    have hbytes : huellaBytes "work" ["a", "b"]
        (.ofNames ["a", "b"] fun n => if n = "a" then .str "x" else .str "y\x1eb\x1ds:z") =
      some (utf8 "work\x1ea\x1ds:x\x1eb\x1ds:y\x1eb\x1ds:z") := by decide
    have hbytes' : huellaBytes "work" ["a", "b"]
        (.ofNames ["a", "b"] fun n => if n = "a" then .str "x\x1eb\x1ds:y" else .str "z") =
      some (utf8 "work\x1ea\x1ds:x\x1eb\x1ds:y\x1eb\x1ds:z") := by decide
    exact absurd (h _ hbytes hbytes' "a" List.mem_cons_self) (by decide)
  · intro h
    have hbytes : huellaBytes "work" ["a"] (.ofNames ["a"] fun _ => .array ["x", "y"]) =
      some (utf8 "work\x1ea\x1da:x\x1fy") := by decide
    have hbytes' : huellaBytes "work" ["a"] (.ofNames ["a"] fun _ => .array ["x\x1fy"]) =
      some (utf8 "work\x1ea\x1da:x\x1fy") := by decide
    exact absurd (h _ hbytes hbytes' "a" List.mem_cons_self) (by decide)

end MetriEngine.Eav
