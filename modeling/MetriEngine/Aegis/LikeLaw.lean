import MetriEngine.Foundation.Wildcards
import MetriEngine.Aegis.Filter

/-!
# Patterns of texts

`LIKE` rewrites its pattern into a regular expression: `%` becomes `.*`, `_` becomes `.`, and
everything else is left as it is. So a character that means something in a regular expression
does not stand for itself, and a wildcard does not stand for a line feed.
-/
namespace MetriEngine.Aegis
open Foundation Storage Eav Wildcard

/-! ### Patterns -/

/-- What a character of a pattern stands for. -/
def likeItem (c : Char) : Wildcard Char :=
  if c = '%' then many else if c = '_' then one else exactly c

def likeItems (pattern : String) : List (Wildcard Char) := pattern.toList.map likeItem

/-- The text matches the pattern: `%` is any run of characters, `_` any one, and every other
character itself. -/
def LikeMatches (pattern text : String) : Prop :=
  Covers (fun _ => True) (likeItems pattern) text.toList

/-- The text matches the pattern, and no wildcard stands for a line feed. -/
def MatchesInLine (pattern text : String) : Prop :=
  Covers (fun c => decide (c ≠ '\n') = true) (likeItems pattern) text.toList

/-! ### Regular expressions -/

/-- The characters that mean something in a regular expression outside of classes. -/
def isMeta (c : Char) : Bool := c ∈ "\\.+*?()|[\x7b^$".toList

def regexText : Wildcard Char → List Char
  | exactly c => [c]
  | one => ['.']
  | many => ['.', '*']

/-- The text of a regular expression for the whole of a text. -/
def anchored (items : List (Wildcard Char)) : String :=
  "^" ++ String.ofList (items.flatMap regexText) ++ "$"

def IsPlain : Wildcard Char → Prop
  | exactly c => isMeta c = false
  | _ => True

/-- What the documentation of regular expressions says of characters without a meaning of their
own, of `.` and of `.*` between the two anchors: `.` is any character but a line feed. An
expression beyond the limit of the compiled size is refused. -/
structure Documented (search : TextSearch) (compiles : String → Bool) : Prop where
  isRegexMatch_iff : ∀ items, (∀ item ∈ items, IsPlain item) → ∀ text,
    (search.isRegexMatch (anchored items) text = true ↔
      compiles (anchored items) = true ∧
        Covers (fun c => decide (c ≠ '\n') = true) items text.toList)

theorem toList_replaceChar (s : String) (c : Char) (part : String) :
    (replaceChar s c part).toList = s.toList.flatMap fun d => if d = c then part.toList else [d] := by
  rw [replaceChar, String.toList_join, List.flatMap_map]
  congr 1
  funext d
  split_ifs
  · rfl
  · exact String.toList_singleton d

/-- What the pattern is rewritten to. -/
theorem rewritten_eq (pattern : String) :
    "^" ++ replaceChar (replaceChar pattern '%' ".*") '_' "." ++ "$" = anchored (likeItems pattern) := by
  have hbody : replaceChar (replaceChar pattern '%' ".*") '_' "." =
      String.ofList ((likeItems pattern).flatMap regexText) := by
    apply String.toList_injective
    rw [toList_replaceChar, toList_replaceChar, likeItems, List.flatMap_map, List.flatMap_assoc]
    refine Eq.trans ?_ String.toList_ofList.symm
    refine congrArg (fun f => List.flatMap f pattern.toList) ?_
    funext c
    unfold likeItem
    split_ifs with hmany hone
    · rfl
    · rw [List.flatMap_singleton, if_pos hone]
      rfl
    · rw [List.flatMap_singleton, if_neg hone]
      rfl
  rw [hbody, anchored]

/-! ### The law -/

section Law
variable (search : TextSearch)

/-- `LIKE` on a text. -/
def acceptsLike (pattern text : String) : Bool :=
  @evalLike search (some (.string text)) (some { stringVal := some pattern })

/-- `LIKE` accepts the text exactly if it matches the pattern, both in small letters and
without accents. -/
def LikeLaw (pattern text : String) : Prop :=
  acceptsLike search pattern text = true ↔
    LikeMatches (@foldedText search pattern) (@foldedText search text)

/-- The characters of the pattern are in the expression what they are in the pattern. -/
def NoMeta (pattern : String) : Prop := ∀ c ∈ (@foldedText search pattern).toList, isMeta c = false

/-- The expression compiles, and a text that matches the pattern does so in one line or with
its line feeds spelled out; or it does not compile, and the text does not match. -/
def LineFeedsSpelledOut (compiles : String → Bool) (pattern text : String) : Prop :=
  if compiles (anchored (likeItems (@foldedText search pattern))) then
    LikeMatches (@foldedText search pattern) (@foldedText search text) →
      MatchesInLine (@foldedText search pattern) (@foldedText search text)
  else ¬ LikeMatches (@foldedText search pattern) (@foldedText search text)

theorem likeMatches_of_inLine {pattern text : String} (h : MatchesInLine pattern text) :
    LikeMatches pattern text := Covers.mono (fun _ _ => trivial) h

variable {search} {compiles : String → Bool}

theorem acceptsLike_iff (hdoc : Documented search compiles) {pattern : String}
    (hplain : NoMeta search pattern) (text : String) :
    acceptsLike search pattern text = true ↔
      compiles (anchored (likeItems (@foldedText search pattern))) = true ∧
        MatchesInLine (@foldedText search pattern) (@foldedText search text) := by
  have hitems : ∀ item ∈ likeItems (@foldedText search pattern), IsPlain item := by
    intro item hitem
    obtain ⟨c, hc, rfl⟩ := List.mem_map.mp hitem
    unfold likeItem
    split_ifs
    · trivial
    · trivial
    · exact hplain c hc
  have hmatch := hdoc.isRegexMatch_iff _ hitems (@foldedText search text)
  rw [← rewritten_eq] at hmatch ⊢
  exact hmatch

/-- What is accepted, given that to match in line is to match. -/
theorem accepted_iff {compiled inLine whole : Prop} [Decidable compiled] (h : inLine → whole) :
    (compiled ∧ inLine ↔ whole) ↔ if compiled then whole → inLine else ¬whole := by
  split_ifs with hcompiled
  · constructor
    · intro hiff hwhole
      exact (hiff.mpr hwhole).2
    · intro hline
      exact ⟨fun haccepted => h haccepted.2, fun hwhole => ⟨hcompiled, hline hwhole⟩⟩
  · constructor
    · intro hiff hwhole
      exact hcompiled (hiff.mpr hwhole).1
    · intro hnot
      exact ⟨fun haccepted => absurd haccepted.1 hcompiled, fun hwhole => absurd hwhole hnot⟩

/-- On a pattern without characters that mean something in regular expressions `LIKE` is right
exactly where no wildcard has to stand for a line feed. -/
theorem likeLaw_iff (hdoc : Documented search compiles) (pattern text : String)
    (hplain : NoMeta search pattern) :
    LikeLaw search pattern text ↔ LineFeedsSpelledOut search compiles pattern text := by
  have hinLine := @likeMatches_of_inLine (@foldedText search pattern) (@foldedText search text)
  unfold LikeLaw LineFeedsSpelledOut
  rw [acceptsLike_iff hdoc hplain, ← accepted_iff hinLine]

end Law

/-! ### An engine for these expressions -/

def readItems : List Char → Option (List (Wildcard Char))
  | [] => some []
  | '.' :: '*' :: rest => (readItems rest).map (many :: ·)
  | '.' :: rest => (readItems rest).map (one :: ·)
  | c :: rest => if isMeta c then none else (readItems rest).map (exactly c :: ·)

theorem readItems_dot {rest : List Char} (h : rest.head? ≠ some '*') :
    readItems ('.' :: rest) = (readItems rest).map (one :: ·) := by
  cases rest with
  | nil => rfl
  | cons c rest =>
    have hc : c ≠ '*' := fun hc => h (congrArg some hc)
    rw [readItems]
    intro rest' hrest
    exact hc (List.cons.inj hrest).1

theorem isMeta_dot : isMeta '.' = true := by decide +kernel

theorem isMeta_star : isMeta '*' = true := by decide +kernel

theorem readItems_plain {c : Char} (hc : isMeta c = false) (rest : List Char) :
    readItems (c :: rest) = (readItems rest).map (exactly c :: ·) := by
  have hdot : c ≠ '.' := by
    intro heq
    rw [heq, isMeta_dot] at hc
    cases hc
  rw [readItems]
  · rw [if_neg (by simp [hc])]
  · exact fun _ h _ => hdot h
  · exact fun h => hdot h

theorem head?_ne_star {items : List (Wildcard Char)} (h : ∀ item ∈ items, IsPlain item) :
    (items.flatMap regexText).head? ≠ some '*' := by
  cases items with
  | nil => exact fun h => nomatch h
  | cons item items =>
    cases item with
    | exactly c =>
      intro hstar
      have hplain : isMeta c = false := h (exactly c) List.mem_cons_self
      rw [show c = '*' from Option.some.inj hstar, isMeta_star] at hplain
      cases hplain
    | one => exact fun hstar => absurd (Option.some.inj hstar) (by decide)
    | many => exact fun hstar => absurd (Option.some.inj hstar) (by decide)

theorem readItems_regexText {items : List (Wildcard Char)} (h : ∀ item ∈ items, IsPlain item) :
    readItems (items.flatMap regexText) = some items := by
  induction items with
  | nil => rfl
  | cons item items ih =>
    have hrest : ∀ item ∈ items, IsPlain item := fun i hi => h i (List.mem_cons_of_mem _ hi)
    rw [List.flatMap_cons]
    cases item with
    | exactly c =>
      have hplain : isMeta c = false := h (exactly c) List.mem_cons_self
      change readItems (c :: items.flatMap regexText) = _
      rw [readItems_plain hplain, ih hrest, Option.map_some]
    | one =>
      change readItems ('.' :: items.flatMap regexText) = _
      rw [readItems_dot (head?_ne_star hrest), ih hrest, Option.map_some]
    | many =>
      change readItems ('.' :: '*' :: items.flatMap regexText) = _
      rw [readItems, ih hrest, Option.map_some]

/-- The items of an expression between its anchors. -/
def readAnchored (pattern : String) : Option (List (Wildcard Char)) :=
  if pattern.toList.head? = some '^' ∧ pattern.toList.getLast? = some '$' then
    readItems pattern.toList.tail.dropLast
  else none

theorem readAnchored_anchored {items : List (Wildcard Char)} (h : ∀ item ∈ items, IsPlain item) :
    readAnchored (anchored items) = some items := by
  have hlist : (anchored items).toList = '^' :: (items.flatMap regexText ++ ['$']) := by
    have hbody : (String.ofList (items.flatMap regexText)).toList = items.flatMap regexText :=
      String.toList_ofList
    rw [anchored, String.toList_append, String.toList_append, hbody]
    rfl
  rw [readAnchored, hlist, if_pos]
  · rw [List.tail_cons, List.dropLast_concat]
    exact readItems_regexText h
  · refine ⟨rfl, ?_⟩
    rw [← List.cons_append, List.getLast?_concat]

/-- Small letters as they are, and expressions of characters, `.` and `.*`. -/
@[reducible] def lineSearch : TextSearch where
  lowercase := id
  isRegexMatch pattern text :=
    (readAnchored pattern).any fun items => covers (fun c => decide (c ≠ '\n')) items text.toList
  fuzzyMatch _ _ := false
  printJson _ := ""

theorem documented_lineSearch : Documented lineSearch fun _ => true where
  isRegexMatch_iff items hplain text := by
    change (readAnchored (anchored items)).any _ = true ↔ _
    rw [readAnchored_anchored hplain, Option.any_some, covers_iff]
    exact (and_iff_right rfl).symm

/-- The pattern `a%c` on `abc`. -/
theorem wildcard_for_a_letter : LikeLaw lineSearch "a%c" "abc" := by
  have hplain : NoMeta lineSearch "a%c" := by
    have hall : (@foldedText lineSearch "a%c").toList.all (fun c => !isMeta c) = true := by
      decide +kernel
    intro c hc
    simpa using List.all_eq_true.mp hall c hc
  apply (likeLaw_iff documented_lineSearch "a%c" "abc" hplain).mpr
  unfold LineFeedsSpelledOut
  rw [if_pos rfl]
  intro _
  exact (covers_iff _).mp (by decide +kernel)

/-- A dot in a pattern is taken for any character. -/
theorem dot_accepts_a_letter : ¬ ∀ (search : TextSearch) (compiles : String → Bool),
    Documented search compiles → ∀ pattern text, LikeLaw search pattern text := by
  intro h
  have hlaw := h lineSearch _ documented_lineSearch "a.c" "abc"
  have haccepts : acceptsLike lineSearch "a.c" "abc" = true := by decide +kernel
  have hmatches : Covers (fun c => (fun _ => true) c = true) (likeItems "a.c") "abc".toList :=
    Covers.mono (fun _ _ => rfl) (hlaw.mp haccepts)
  exact absurd ((covers_iff fun _ => true).mpr hmatches) (by decide +kernel)

end MetriEngine.Aegis
