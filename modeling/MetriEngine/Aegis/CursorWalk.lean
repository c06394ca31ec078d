import MetriEngine.Foundation.Base64
import MetriEngine.Storage.Wire
import MetriEngine.Aegis.Table

/-!
# Pages that cursors lead to

A cursor is the Base64 of an offset and a limit, and a client may send any text for one. The
page behind a cursor is cut out of a list of rows in one of three ways; a sum or a product of
its numbers that no machine word holds, and a slice that ends before it begins, are none.
-/
namespace MetriEngine.Aegis
open Foundation Storage Eav

/-! ### Cursors -/

instance base64Cursors : CursorCodec where
  encode s := String.ofList (Base64.encode (utf8 s))
  decode cursor := (Base64.decode cursor.toList).map fun bytes => (fromUtf8 bytes).getD ""

theorem decode_encode_cursor (s : String) :
    CursorCodec.decode (CursorCodec.encode s) = some s := by
  change (Base64.decode (String.ofList (Base64.encode (utf8 s))).toList).map _ = _
  rw [String.toList_ofList, Base64.decode_encode, Option.map_some, fromUtf8_utf8, Option.getD_some]

theorem splitOnceList_sep {sep : Char} {a b : List Char} (h : sep ∉ a) :
    splitOnceList [sep] (a ++ sep :: b) = some (a, b) := by
  induction a with
  | nil => simp [splitOnceList]
  | cons c a ih =>
    obtain ⟨hc, ha⟩ := not_or.mp (mt List.mem_cons.mpr h)
    simp [splitOnceList, hc, ih ha]

theorem colon_not_mem_repr (n : ℕ) : ':' ∉ (Nat.repr n).toList := by
  intro h
  rw [Nat.toList_repr] at h
  exact absurd (Nat.isDigit_of_mem_toDigits (by omega) le_rfl h) (by decide)

theorem encodeCursor_ne_empty (offset limit : ℕ) : encodeCursor offset limit ≠ "" := by
  intro h
  have hdecode := decode_encode_cursor (toString offset ++ ":" ++ toString limit)
  change CursorCodec.decode (encodeCursor offset limit) = _ at hdecode
  rw [h] at hdecode
  have hempty : toString offset ++ ":" ++ toString limit = "" := (Option.some.inj hdecode).symm
  have hlength := congrArg (fun s => s.toList.length) hempty
  simp at hlength

/-- A cursor leads to the numbers it was made of. -/
theorem decodeCursor_encodeCursor {offset limit : ℕ} (ho : offset < 2 ^ 64) (hl : limit < 2 ^ 64)
    (fallbackLimit : ℕ) :
    decodeCursor (some (encodeCursor offset limit)) fallbackLimit = (offset, limit) := by
  have hsplit : Text.splitOnce ":" (toString offset ++ ":" ++ toString limit) =
      some (toString offset, toString limit) := by
    have hlist : (toString offset ++ ":" ++ toString limit).toList =
        (Nat.repr offset).toList ++ ':' :: (Nat.repr limit).toList := by
      rw [String.toList_append, String.toList_append, List.append_assoc]
      rfl
    rw [Text.splitOnce, hlist]
    change (splitOnceList [':'] _).map _ = _
    rw [splitOnceList_sep (colon_not_mem_repr offset), Option.map_some, String.ofList_toList,
      String.ofList_toList]
    rfl
  unfold decodeCursor
  rw [Option.filter_some, if_pos (decide_eq_true (encodeCursor_ne_empty offset limit)),
    Option.bind_some]
  unfold encodeCursor
  rw [decode_encode_cursor]
  dsimp only
  rw [hsplit]
  change ((parseUnsigned (Nat.repr offset)).getD 0, (parseUnsigned (Nat.repr limit)).getD _) = _
  rw [parseUnsigned_repr ho, parseUnsigned_repr hl]
  rfl

/-! ### Pages -/

/-- How the page of a request is cut: not at all for an analytical one, after the rows are
filtered and sorted, or before they are hydrated. -/
inductive PageMode
  | analytical
  | largeScan
  | preSliced
deriving DecidableEq

/-- A result in a machine word of 64 bits. -/
def usize (n : ℕ) : Option ℕ := if n < 2 ^ 64 then some n else none

theorem usize_of_lt {n : ℕ} (h : n < 2 ^ 64) : usize n = some n := if_pos h

theorem usize_of_not_lt {n : ℕ} (h : ¬ n < 2 ^ 64) : usize n = none := if_neg h

section Pages
variable {α : Type} (mode : PageMode) (rows : List α)

/-- `rows[start..stop]` -/
def sliceRange (start stop : ℕ) : Option (List α) :=
  if start ≤ stop ∧ stop ≤ rows.length then some ((rows.drop start).take (stop - start)) else none

/-- The rows that are looked at for a page. -/
def PageMode.sliced (offset targetMatches : ℕ) : Option (List α) :=
  match mode with
  | .preSliced => sliceRange rows (min offset rows.length) (min targetMatches rows.length)
  | _ => some rows

/-- The most ids that are hydrated. -/
def PageMode.maxHydrations (targetMatches : ℕ) : Option ℕ :=
  match mode with
  | .analytical => some 100000
  | .largeScan => (usize (targetMatches * 5)).map (max · 10000)
  | .preSliced => (usize (targetMatches * 5)).map (max · 250)

def PageMode.cut (offset pageLimit : ℕ) (matchingRows : List α) : List α :=
  match mode with
  | .analytical => matchingRows
  | .largeScan => (matchingRows.drop offset).take pageLimit
  | .preSliced => matchingRows.take pageLimit

/-- The page that a cursor leads to, and its pagination. -/
def servePage (cursor : Option String) (effectiveLimit : ℕ) : Option (List α × Pagination) :=
  let (offset, pageLimit) := decodeCursor cursor effectiveLimit
  (usize (offset + pageLimit)).bind fun targetMatches =>
    (mode.sliced rows offset targetMatches).bind fun sliced =>
      (mode.maxHydrations targetMatches).map fun _ =>
        (mode.cut offset pageLimit sliced, buildPagination offset pageLimit rows.length)

/-- The numbers of a cursor fit the machine words that are made of them. -/
def NumbersFit (numbers : ℕ × ℕ) : Prop :=
  numbers.1 + numbers.2 < 2 ^ 64 ∧
    (mode = .analytical ∨ (numbers.1 + numbers.2) * 5 < 2 ^ 64)

/-- The rows of a page. -/
def pageAt (offset pageLimit : ℕ) : List α :=
  if mode = .analytical then rows else (rows.drop offset).take pageLimit

theorem pageAt_sublist (offset pageLimit : ℕ) : (pageAt mode rows offset pageLimit).Sublist rows := by
  unfold pageAt
  split_ifs
  · exact List.Sublist.refl rows
  · exact (List.take_sublist _ _).trans (List.drop_sublist _ _)

theorem cut_sliceRange (offset pageLimit : ℕ) :
    (sliceRange rows (min offset rows.length) (min (offset + pageLimit) rows.length)).map
      (List.take pageLimit) = some ((rows.drop offset).take pageLimit) := by
  unfold sliceRange
  rw [if_pos ⟨by omega, by omega⟩, Option.map_some]
  congr 1
  rcases Nat.lt_or_ge offset rows.length with h | h
  · rw [Nat.min_eq_left h.le, List.take_take]
    apply List.take_eq_take_iff.mpr
    rw [List.length_drop]
    omega
  · have hnil : rows.drop offset = [] := List.drop_eq_nil_of_le h
    rw [Nat.min_eq_right h, Nat.min_eq_right (by omega), Nat.sub_self, hnil]
    simp

variable {mode} {rows} {cursor : Option String} {limit : ℕ}

variable (rows) in
theorem servePage_eq (h : NumbersFit mode (decodeCursor cursor limit)) :
    servePage mode rows cursor limit =
      some (pageAt mode rows (decodeCursor cursor limit).1 (decodeCursor cursor limit).2,
        buildPagination (decodeCursor cursor limit).1 (decodeCursor cursor limit).2 rows.length) := by
  obtain ⟨hsum, hmode⟩ := h
  unfold servePage
  dsimp only
  rw [usize_of_lt hsum, Option.bind_some]
  cases mode with
  | analytical => rfl
  | largeScan =>
    have hcap := hmode.resolve_left (by decide)
    simp only [PageMode.sliced, PageMode.maxHydrations, usize_of_lt hcap, Option.map_some,
      Option.bind_some]
    rfl
  | preSliced =>
    have hcap := hmode.resolve_left (by decide)
    have hslice := cut_sliceRange rows (decodeCursor cursor limit).1 (decodeCursor cursor limit).2
    obtain ⟨ids, hids, hpage⟩ := Option.map_eq_some_iff.mp hslice
    simp only [PageMode.sliced, hids, PageMode.maxHydrations, usize_of_lt hcap, Option.map_some,
      Option.bind_some, PageMode.cut, hpage]
    rfl

theorem servePage_eq_none (h : ¬ NumbersFit mode (decodeCursor cursor limit)) :
    servePage mode rows cursor limit = none := by
  unfold servePage
  dsimp only
  by_cases hsum : (decodeCursor cursor limit).1 + (decodeCursor cursor limit).2 < 2 ^ 64
  · have hcap : mode.maxHydrations
        ((decodeCursor cursor limit).1 + (decodeCursor cursor limit).2) = none := by
      cases mode with
      | analytical => exact absurd ⟨hsum, Or.inl rfl⟩ h
      | largeScan =>
        have hmul : ¬ ((decodeCursor cursor limit).1 + (decodeCursor cursor limit).2) * 5 < 2 ^ 64 :=
          fun hlt => h ⟨hsum, Or.inr hlt⟩
        rw [PageMode.maxHydrations, usize_of_not_lt hmul, Option.map_none]
      | preSliced =>
        have hmul : ¬ ((decodeCursor cursor limit).1 + (decodeCursor cursor limit).2) * 5 < 2 ^ 64 :=
          fun hlt => h ⟨hsum, Or.inr hlt⟩
        rw [PageMode.maxHydrations, usize_of_not_lt hmul, Option.map_none]
    rw [usize_of_lt hsum, Option.bind_some, hcap]
    cases mode.sliced rows (decodeCursor cursor limit).1 _ <;> rfl
  · rw [usize_of_not_lt hsum, Option.bind_none]

end Pages

/-! ### Walks -/

section Walks
variable {α : Type} (mode : PageMode) (rows : List α)

/-- The pages from a cursor on, each behind the next cursor of the page before. -/
inductive Walk (limit : ℕ) : Option String → List (List α) → Prop
  | last {cursor page pagination} :
    servePage mode rows cursor limit = some (page, pagination) → pagination.nextCursor = none →
      Walk limit cursor [page]
  | next {cursor page pagination cursor' pages} :
    servePage mode rows cursor limit = some (page, pagination) →
      pagination.nextCursor = some cursor' → Walk limit (some cursor') pages →
        Walk limit cursor (page :: pages)

/-- The pages from the first on are finitely many and hold every row once and in order. -/
def WalksThrough (limit : ℕ) : Prop :=
  ∃ pages, Walk mode rows limit none pages ∧ pages.flatten = rows

/-- A cursor leads to a page, and its rows are some of the rows in their order. -/
def ServesSublist (cursor : Option String) (limit : ℕ) : Prop :=
  ∃ page pagination, servePage mode rows cursor limit = some (page, pagination) ∧ page.Sublist rows

/-- The numbers of the last page fit; an analytical request has one page. -/
def WalkFits (limit : ℕ) : Prop :=
  if mode = .analytical then rows.length ≤ limit
  else ((rows.length - 1) / limit * limit + limit) * 5 < 2 ^ 64

theorem servesSublist_iff (cursor : Option String) (limit : ℕ) :
    ServesSublist mode rows cursor limit ↔ NumbersFit mode (decodeCursor cursor limit) := by
  constructor
  · rintro ⟨page, pagination, hserve, _⟩
    by_contra h
    rw [servePage_eq_none h] at hserve
    cases hserve
  · intro h
    exact ⟨_, _, servePage_eq _ h, pageAt_sublist _ _ _ _⟩

variable {mode} {rows} {limit : ℕ}

theorem nextCursor_buildPagination {offset total : ℕ} (h : offset + limit < 2 ^ 64) :
    (buildPagination offset limit total).nextCursor =
      if offset + limit < total then some (encodeCursor (offset + limit) limit) else none := by
  unfold buildPagination
  rw [Nat.mod_eq_of_lt h]

/-- A cursor of a walk stands at the beginning of a page. -/
def StandsAt (cursor : Option String) (limit offset : ℕ) : Prop :=
  decodeCursor cursor limit = (offset, limit)

theorem standsAt_none : StandsAt none limit 0 := rfl

theorem standsAt_encodeCursor {offset : ℕ} (ho : offset < 2 ^ 64) (hl : limit < 2 ^ 64) :
    StandsAt (some (encodeCursor offset limit)) limit offset :=
  decodeCursor_encodeCursor ho hl limit

variable (rows) in
/-- What a page of a walk gives, and whether another page comes. -/
theorem servePage_standsAt {cursor : Option String} {offset : ℕ} (hstands : StandsAt cursor limit offset)
    (hfit : NumbersFit mode (offset, limit)) :
    ∃ pagination, servePage mode rows cursor limit = some (pageAt mode rows offset limit, pagination) ∧
      pagination.nextCursor =
        if offset + limit < rows.length then some (encodeCursor (offset + limit) limit)
        else none := by
  unfold StandsAt at hstands
  have hserve := servePage_eq rows (hstands ▸ hfit)
  rw [hstands] at hserve
  exact ⟨_, hserve, nextCursor_buildPagination hfit.1⟩

/-- From a cursor on, the rows from its offset on come. -/
theorem exists_walk (hmode : mode ≠ .analytical) (hpos : 1 ≤ limit)
    (hfits : ((rows.length - 1) / limit * limit + limit) * 5 < 2 ^ 64) :
    ∀ (k : ℕ) (cursor : Option String), StandsAt cursor limit (k * limit) →
      (k * limit < rows.length ∨ k = 0) →
      ∃ pages, Walk mode rows limit cursor pages ∧ pages.flatten = rows.drop (k * limit) := by
  intro k
  induction hleft : rows.length - k * limit using Nat.strong_induction_on generalizing k with
  | _ left ih =>
    intro cursor hstands hinside
    have hpage : k * limit ≤ (rows.length - 1) / limit * limit := by
      apply Nat.mul_le_mul_right
      rcases hinside with h | rfl
      · rw [Nat.le_div_iff_mul_le hpos]
        omega
      · exact Nat.zero_le _
    have hfit : NumbersFit mode (k * limit, limit) := by
      constructor
      · dsimp only
        omega
      · right
        dsimp only
        omega
    obtain ⟨pagination, hserve, hnext⟩ := servePage_standsAt rows hstands hfit
    rw [pageAt, if_neg hmode] at hserve
    by_cases hmore : k * limit + limit < rows.length
    · rw [if_pos hmore] at hnext
      have hsucc : (k + 1) * limit = k * limit + limit := Nat.succ_mul k limit
      have hstands' : StandsAt (some (encodeCursor (k * limit + limit) limit)) limit
          ((k + 1) * limit) := by
        rw [hsucc]
        exact standsAt_encodeCursor hfit.1 (by have := hfit.1; dsimp only at this; omega)
      obtain ⟨pages, hwalk, hflat⟩ := ih (rows.length - (k + 1) * limit) (by omega) (k + 1) rfl
        _ hstands' (Or.inl (by omega))
      refine ⟨_, .next hserve hnext hwalk, ?_⟩
      rw [List.flatten_cons, hflat, hsucc, ← List.drop_drop, List.take_append_drop]
    · rw [if_neg hmore] at hnext
      refine ⟨_, .last hserve hnext, ?_⟩
      have hall : (rows.drop (k * limit)).length ≤ limit := by
        rw [List.length_drop]
        omega
      rw [List.flatten_singleton, List.take_of_length_le hall]

/-- The last page of a walk was served, so its numbers fit. -/
theorem fits_of_walk (hmode : mode ≠ .analytical) (hpos : 1 ≤ limit) (hlimit : limit < 2 ^ 64)
    {cursor : Option String} {pages : List (List α)} (hwalk : Walk mode rows limit cursor pages) :
    ∀ k, StandsAt cursor limit (k * limit) →
      ((rows.length - 1) / limit * limit + limit) * 5 < 2 ^ 64 := by
  have hfit : ∀ {cursor : Option String} {k : ℕ} {served : List α × Pagination},
      StandsAt cursor limit (k * limit) → servePage mode rows cursor limit = some served →
        NumbersFit mode (k * limit, limit) := by
    intro cursor k served hstands hserve
    by_contra hnot
    unfold StandsAt at hstands
    rw [servePage_eq_none (hstands ▸ hnot)] at hserve
    cases hserve
  induction hwalk with
  | last hserve hlast =>
    intro k hstands
    have hnumbers := hfit hstands hserve
    obtain ⟨pagination, hserve', hnext⟩ := servePage_standsAt rows hstands hnumbers
    obtain ⟨-, rfl⟩ := Prod.mk.inj (Option.some.inj (hserve.symm.trans hserve'))
    have hend : rows.length ≤ k * limit + limit := by
      by_contra hmore
      rw [hlast, if_pos (by omega)] at hnext
      cases hnext
    have hpage : (rows.length - 1) / limit ≤ k := by
      apply Nat.le_of_lt_succ
      rw [Nat.div_lt_iff_lt_mul hpos, Nat.succ_mul]
      omega
    have hle : (rows.length - 1) / limit * limit ≤ k * limit := Nat.mul_le_mul_right limit hpage
    have hcap := hnumbers.2.resolve_left hmode
    dsimp only at hcap
    omega
  | next hserve hnext hrest ih =>
    intro k hstands
    have hnumbers := hfit hstands hserve
    obtain ⟨pagination, hserve', hnext'⟩ := servePage_standsAt rows hstands hnumbers
    obtain ⟨-, rfl⟩ := Prod.mk.inj (Option.some.inj (hserve.symm.trans hserve'))
    rw [hnext] at hnext'
    split_ifs at hnext' with hmore
    apply ih (k + 1)
    rw [Option.some.inj hnext', Nat.succ_mul]
    exact standsAt_encodeCursor hnumbers.1 hlimit

theorem walk_ne_nil {cursor : Option String} {pages : List (List α)}
    (hwalk : Walk mode rows limit cursor pages) : pages ≠ [] := by
  cases hwalk with
  | last => exact List.cons_ne_nil _ _
  | next => exact List.cons_ne_nil _ _

/-- Each page of an analytical request is all the rows. -/
theorem walk_analytical {cursor : Option String} {pages : List (List α)}
    (hwalk : Walk .analytical rows limit cursor pages) : ∀ page ∈ pages, page = rows := by
  have hserved : ∀ {cursor : Option String} {page : List α} {pagination : Pagination},
      servePage .analytical rows cursor limit = some (page, pagination) → page = rows := by
    intro cursor page pagination hserve
    by_cases hfit : NumbersFit .analytical (decodeCursor cursor limit)
    · rw [servePage_eq _ hfit] at hserve
      exact (Prod.mk.inj (Option.some.inj hserve)).1.symm
    · rw [servePage_eq_none hfit] at hserve
      cases hserve
  induction hwalk with
  | last hserve _ =>
    intro page hpage
    rw [List.mem_singleton.mp hpage]
    exact hserved hserve
  | next hserve _ _ ih =>
    intro page hpage
    rcases List.mem_cons.mp hpage with rfl | hpage
    · exact hserved hserve
    · exact ih page hpage

theorem walksThrough_analytical_iff (hpos : 1 ≤ limit) (hlimit : limit < 2 ^ 64) :
    WalksThrough .analytical rows limit ↔ rows.length ≤ limit := by
  have hfit : NumbersFit .analytical (0, limit) := ⟨by simpa using hlimit, Or.inl rfl⟩
  obtain ⟨pagination, hserve, hnext⟩ := servePage_standsAt rows standsAt_none hfit
  rw [Nat.zero_add] at hnext
  constructor
  · rintro ⟨pages, hwalk, hflat⟩
    by_contra hmore
    rw [if_pos (by omega)] at hnext
    have hall := walk_analytical hwalk
    -- the first page says that another one comes, which holds the rows a second time
    cases hwalk with
    | last hserve' hlast =>
      obtain ⟨-, rfl⟩ := Prod.mk.inj (Option.some.inj (hserve.symm.trans hserve'))
      rw [hlast] at hnext
      cases hnext
    | @next _ page _ _ rest hserve' hnext' hrest =>
      obtain ⟨second, others, rfl⟩ := List.exists_cons_of_ne_nil (walk_ne_nil hrest)
      have hlength := congrArg List.length hflat
      rw [List.flatten_cons, List.flatten_cons, hall page List.mem_cons_self,
        hall second (List.mem_cons_of_mem _ List.mem_cons_self)] at hlength
      simp only [List.length_append] at hlength
      omega
  · intro hone
    rw [if_neg (by omega)] at hnext
    exact ⟨[rows], .last hserve hnext, List.flatten_singleton⟩

theorem walksThrough_iff (mode : PageMode) (rows : List α) (hpos : 1 ≤ limit)
    (hlimit : limit < 2 ^ 64) : WalksThrough mode rows limit ↔ WalkFits mode rows limit := by
  unfold WalkFits
  split_ifs with hmode
  · subst hmode
    exact walksThrough_analytical_iff hpos hlimit
  · have hzero : StandsAt none limit (0 * limit) := by
      rw [Nat.zero_mul]
      exact standsAt_none
    constructor
    · rintro ⟨pages, hwalk, _⟩
      exact fits_of_walk hmode hpos hlimit hwalk 0 hzero
    · intro hfits
      obtain ⟨pages, hwalk, hflat⟩ := exists_walk hmode hpos hfits 0 none hzero (Or.inr rfl)
      rw [Nat.zero_mul, List.drop_zero] at hflat
      exact ⟨pages, hwalk, hflat⟩

end Walks

/-- A limit that a request can have: a machine word that is not zero. -/
abbrev PageLimit := {n : ℕ // 1 ≤ n ∧ n < 2 ^ 64}

/-- The pages lead through the rows where the numbers of the last one fit, an analytical request
where its rows are no more than the limit; and a cursor leads to some of the rows exactly where
its numbers fit. -/
theorem cursor_walk_iff {α : Type} (mode : PageMode) (rows : List α) (limit : PageLimit) :
    (WalksThrough mode rows limit.val ↔ WalkFits mode rows limit.val) ∧
    ∀ cursor, ServesSublist mode rows cursor limit.val ↔
      NumbersFit mode (decodeCursor cursor limit.val) := by
  constructor
  · exact walksThrough_iff mode rows limit.property.1 limit.property.2
  · intro cursor
    exact servesSublist_iff mode rows cursor limit.val

/-- The last offset with a limit of one, as a client may send it. -/
def lastOffset : String := encodeCursor (2 ^ 64 - 1) 1

theorem decodeCursor_lastOffset (fallbackLimit : ℕ) :
    decodeCursor (some lastOffset) fallbackLimit = (2 ^ 64 - 1, 1) :=
  decodeCursor_encodeCursor (by norm_num) (by norm_num) fallbackLimit

theorem last_offset_is_not_served : ¬ ∀ (mode : PageMode) (rows : List ℕ) (limit : PageLimit),
    WalksThrough mode rows limit.val ∧ ∀ cursor, ServesSublist mode rows cursor limit.val := by
  intro h
  have hserves := (h .preSliced [1, 2, 3] ⟨1, by norm_num, by norm_num⟩).2 (some lastOffset)
  have hfit := (servesSublist_iff _ _ _ _).mp hserves
  rw [decodeCursor_lastOffset] at hfit
  exact absurd hfit.1 (by norm_num)

/-! ### Tables -/

section Tables
variable {request : TableRequest} {range : TimeRange} (allEntityIds : List String)

variable [Codecs] [MapOrder] [TextSearch]

end Tables

end MetriEngine.Aegis
