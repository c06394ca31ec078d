import MetriEngine.Eav.Value

/-!
# The text of an array

An array of texts is stored as one JSON text. The escapes of JSON can be read back one
character at a time, so no two arrays have one text.
-/
namespace MetriEngine.Eav
open Foundation

/-- The value of a hexadecimal digit. -/
def hexDigit (c : Char) : ℕ := (List.range 16).findIdx fun d => Nat.digitChar d = c

/-- Reads the first character of the inside of a JSON string. -/
def readJsonChar : List Char → Option (Char × List Char)
  | '\\' :: 'u' :: '0' :: '0' :: hi :: lo :: rest =>
    some (Char.ofNat (16 * hexDigit hi + hexDigit lo), rest)
  | '\\' :: 'b' :: rest => some (Char.ofNat 8, rest)
  | '\\' :: 't' :: rest => some (Char.ofNat 9, rest)
  | '\\' :: 'n' :: rest => some (Char.ofNat 10, rest)
  | '\\' :: 'f' :: rest => some (Char.ofNat 12, rest)
  | '\\' :: 'r' :: rest => some (Char.ofNat 13, rest)
  | '\\' :: c :: rest => some (c, rest)
  | c :: rest => some (c, rest)
  | [] => none

theorem readJsonChar_jsonChar (c : Char) (rest : List Char) :
    readJsonChar ((jsonChar c).toList ++ rest) = some (c, rest) := by
  by_cases hcontrol : c.toNat < 32
  · obtain ⟨n, hn, rfl⟩ : ∃ n < 32, Char.ofNat n = c := ⟨c.toNat, hcontrol, Char.ofNat_toNat c⟩
    clear hcontrol
    interval_cases n <;> rfl
  · by_cases hquote : c = '"'
    · subst hquote
      rfl
    · by_cases hslash : c = '\\'
      · subst hslash
        rfl
      · have hplain : jsonChar c = String.singleton c := by
          unfold jsonChar
          rw [if_neg hquote, if_neg hslash, if_neg (by omega), if_neg (by omega), if_neg (by omega),
            if_neg (by omega), if_neg (by omega), if_neg hcontrol]
        rw [hplain, String.toList_singleton, List.singleton_append]
        unfold readJsonChar
        split
        all_goals first
          | (rename_i heq; exact absurd (List.cons.inj heq).1 hslash)
          | (rename_i heq; cases heq; rfl)
          | (rename_i heq; cases heq)

theorem jsonChar_append_inj {c c' : Char} {rest rest' : List Char}
    (h : (jsonChar c).toList ++ rest = (jsonChar c').toList ++ rest') : c = c' ∧ rest = rest' := by
  have hread := congrArg readJsonChar h
  rw [readJsonChar_jsonChar, readJsonChar_jsonChar] at hread
  cases hread
  exact ⟨rfl, rfl⟩

/-- No escape begins with a quote. -/
theorem jsonChar_ne_quote {c : Char} {rest rest' : List Char} :
    (jsonChar c).toList ++ rest ≠ '"' :: rest' := by
  intro h
  have hread := congrArg readJsonChar h
  rw [readJsonChar_jsonChar] at hread
  have hquote : readJsonChar ('"' :: rest') = some ('"', rest') := rfl
  rw [hquote] at hread
  cases hread
  have hescaped : (jsonChar '"').toList = ['\\', '"'] := by decide
  rw [hescaped] at h
  exact absurd (List.cons.inj h).1 (by decide)

theorem escaped_inj {l l' rest rest' : List Char}
    (h : (l.flatMap fun c => (jsonChar c).toList) ++ '"' :: rest =
      (l'.flatMap fun c => (jsonChar c).toList) ++ '"' :: rest') : l = l' ∧ rest = rest' := by
  induction l generalizing l' with
  | nil =>
    cases l' with
    | nil => exact ⟨rfl, (List.cons.inj h).2⟩
    | cons c' l' =>
      rw [List.flatMap_nil, List.nil_append, List.flatMap_cons, List.append_assoc] at h
      exact absurd h.symm jsonChar_ne_quote
  | cons c l ih =>
    cases l' with
    | nil =>
      rw [List.flatMap_nil, List.nil_append, List.flatMap_cons, List.append_assoc] at h
      exact absurd h jsonChar_ne_quote
    | cons c' l' =>
      rw [List.flatMap_cons, List.flatMap_cons, List.append_assoc, List.append_assoc] at h
      obtain ⟨rfl, htail⟩ := jsonChar_append_inj h
      obtain ⟨rfl, rfl⟩ := ih htail
      exact ⟨rfl, rfl⟩

theorem toList_jsonString (s : String) :
    (jsonString s).toList = '"' :: ((s.toList.flatMap fun c => (jsonChar c).toList) ++ ['"']) := by
  rw [jsonString, String.toList_append, String.toList_append, String.toList_join, List.flatMap_map]
  rfl

theorem jsonString_append_inj {s s' : String} {rest rest' : List Char}
    (h : (jsonString s).toList ++ rest = (jsonString s').toList ++ rest') : s = s' ∧ rest = rest' := by
  rw [toList_jsonString, toList_jsonString, List.cons_append, List.cons_append, List.append_assoc,
    List.append_assoc, List.singleton_append, List.singleton_append] at h
  obtain ⟨hs, hrest⟩ := escaped_inj (List.cons.inj h).2
  exact ⟨String.toList_injective hs, hrest⟩

/-- The strings of an array, each but the first after a comma, and the bracket. -/
def itemsText (items : List String) : List Char :=
  ([','].intercalate (items.map fun s => (jsonString s).toList)) ++ [']']

theorem itemsText_cons (s : String) (items : List String) :
    itemsText (s :: items) = (jsonString s).toList ++
      if items = [] then [']'] else ',' :: itemsText items := by
  cases items with
  | nil => simp [itemsText]
  | cons t items => simp [itemsText, List.intercalate_cons_cons]

theorem itemsText_inj {items items' : List String} (h : itemsText items = itemsText items') :
    items = items' := by
  have hempty (s : String) (rest : List String) : itemsText (s :: rest) ≠ itemsText [] := by
    rw [itemsText_cons, toList_jsonString]
    intro heq
    exact absurd (List.cons.inj heq).1 (by decide)
  induction items generalizing items' with
  | nil =>
    cases items' with
    | nil => rfl
    | cons s' rest' => exact absurd h.symm (hempty s' rest')
  | cons s rest ih =>
    cases items' with
    | nil => exact absurd h (hempty s rest)
    | cons s' rest' =>
      rw [itemsText_cons, itemsText_cons] at h
      obtain ⟨rfl, htail⟩ := jsonString_append_inj h
      split_ifs at htail with hrest hrest' hrest'
      · rw [hrest, hrest']
      · exact absurd (List.cons.inj htail).1 (by decide)
      · exact absurd (List.cons.inj htail).1 (by decide)
      · rw [ih (List.cons.inj htail).2]

/-- No two arrays have one text. -/
theorem jsonStrings_injective : Function.Injective jsonStrings := by
  intro items items' h
  have hlists := congrArg String.toList h
  have htext (l : List String) : (jsonStrings l).toList = '[' :: itemsText l := by
    rw [jsonStrings, String.toList_append, String.toList_append, String.toList_intercalate,
      List.map_map]
    rfl
  rw [htext, htext] at hlists
  exact itemsText_inj (List.cons.inj hlists).2

end MetriEngine.Eav
