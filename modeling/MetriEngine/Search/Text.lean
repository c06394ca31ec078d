import MetriEngine.Foundation.Text

/-!
# Words of the search index

How a text is folded, cut into tokens, canonicalised as a code and spelled by sound, the
pieces of a token under which it is filed, and the edit distance of two tokens.
-/
namespace MetriEngine.Search
open Foundation

/-! ### Folding and tokens -/

/-- One character of `strip_accents_and_lower`. -/
def stripAccent (c : Char) : Char :=
  if c ∈ ['á', 'à', 'ä', 'â', 'Á', 'À', 'Ä', 'Â'] then 'a'
  else if c ∈ ['é', 'è', 'ë', 'ê', 'É', 'È', 'Ë', 'Ê'] then 'e'
  else if c ∈ ['í', 'ì', 'ï', 'î', 'Í', 'Ì', 'Ï', 'Î'] then 'i'
  else if c ∈ ['ó', 'ò', 'ö', 'ô', 'Ó', 'Ò', 'Ö', 'Ô'] then 'o'
  else if c ∈ ['ú', 'ù', 'ü', 'û', 'Ú', 'Ù', 'Ü', 'Û'] then 'u'
  else if c ∈ ['ñ', 'Ñ'] then 'n'
  else c.toLower

def stripAccentsAndLower (text : String) : String := String.ofList (text.toList.map stripAccent)

def tokenizeNormalized (text : String) : List String :=
  (((stripAccentsAndLower text).toList.splitOnP fun c => !c.isAlphanum).filter
    fun s => 2 ≤ s.length).map String.ofList

theorem stripAccent_of_isAlphanum {c : Char} (h : c.isAlphanum = true) :
    stripAccent c = c.toLower := by
  have hplain : ∀ l : List Char, (l.all fun d => !d.isAlphanum) = true → c ∉ l := by
    intro l hl hc
    simpa [h] using List.all_eq_true.mp hl c hc
  rw [stripAccent, if_neg (hplain _ (by decide)), if_neg (hplain _ (by decide)),
    if_neg (hplain _ (by decide)), if_neg (hplain _ (by decide)), if_neg (hplain _ (by decide)),
    if_neg (hplain _ (by decide))]

theorem toLower_stripAccent (c : Char) : (stripAccent c).toLower = stripAccent c := by
  unfold stripAccent
  split_ifs
  iterate 6 decide
  exact Char.toLower_toLower_eq_toLower c

/-- The tokens of two texts set apart by a blank. -/
theorem tokenizeNormalized_append (a b : String) :
    tokenizeNormalized (a ++ " " ++ b) = tokenizeNormalized a ++ tokenizeNormalized b := by
  have hblank : stripAccent ' ' = ' ' := by decide
  simp only [tokenizeNormalized, stripAccentsAndLower, String.toList_ofList, String.toList_append,
    List.map_append, List.append_assoc]
  rw [show (" " : String).toList.map stripAccent ++ b.toList.map stripAccent =
    ' ' :: b.toList.map stripAccent by simp [hblank]]
  rw [List.splitOnP_append_cons _ _ (by decide), List.filter_append, List.map_append]

theorem mem_of_mem_splitOnP {α : Type*} {p : α → Bool} {l piece : List α}
    (h : piece ∈ l.splitOnP p) {a : α} (ha : a ∈ piece) : a ∈ l ∧ p a = false := by
  induction l generalizing piece with
  | nil =>
    rw [List.splitOnP_nil, List.mem_singleton] at h
    subst h
    cases ha
  | cons x xs ih =>
    rw [List.splitOnP_cons_eq_if_modifyHead] at h
    split_ifs at h with hx
    · rcases List.mem_cons.mp h with rfl | h
      · cases ha
      · exact ⟨List.mem_cons_of_mem _ (ih h ha).1, (ih h ha).2⟩
    · cases hs : xs.splitOnP p with
      | nil => exact absurd hs (List.splitOnP_ne_nil p xs)
      | cons y ys =>
        rw [hs, List.modifyHead_cons] at h
        rw [hs] at ih
        rcases List.mem_cons.mp h with rfl | h
        · rcases List.mem_cons.mp ha with rfl | ha
          · exact ⟨List.mem_cons_self, by simpa using hx⟩
          · have := ih List.mem_cons_self ha
            exact ⟨List.mem_cons_of_mem _ this.1, this.2⟩
        · have := ih (List.mem_cons_of_mem _ h) ha
          exact ⟨List.mem_cons_of_mem _ this.1, this.2⟩

/-- A token is read back as itself alone. -/
theorem tokenizeNormalized_token {text t : String} (h : t ∈ tokenizeNormalized text) :
    tokenizeNormalized t = [t] := by
  obtain ⟨piece, hpiece, rfl⟩ := List.mem_map.mp h
  obtain ⟨hmem, hlen⟩ := List.mem_filter.mp hpiece
  have hchar : ∀ c ∈ piece, stripAccent c = c ∧ c.isAlphanum = true := by
    intro c hc
    obtain ⟨hfolded, hsep⟩ := mem_of_mem_splitOnP hmem hc
    rw [stripAccentsAndLower, String.toList_ofList, List.mem_map] at hfolded
    obtain ⟨d, _, rfl⟩ := hfolded
    have halnum : (stripAccent d).isAlphanum = true := by simpa using hsep
    exact ⟨(stripAccent_of_isAlphanum halnum).trans (toLower_stripAccent d), halnum⟩
  have hfold : piece.map stripAccent = piece :=
    (List.map_congr_left fun c hc => (hchar c hc).1).trans (List.map_id' piece)
  rw [tokenizeNormalized, stripAccentsAndLower, String.toList_ofList, String.toList_ofList, hfold,
    List.splitOnP_eq_singleton fun c hc => by simp [(hchar c hc).2], List.filter_singleton, hlen]
  rfl

/-! ### Codes -/

/-- `str::split_whitespace` -/
def splitWhitespace (s : String) : List (List Char) :=
  (s.toList.splitOnP Text.isWhitespace).filter fun word => word ≠ []

/-- The sign read for one that is easily mistaken: `O` for zero, `I` and `L` for one. -/
def canonicalGlyph (c : Char) : Char :=
  if c = 'O' then '0' else if c = 'I' ∨ c = 'L' then '1' else c

/-- One letter or digit of a word, at its place among them. -/
def canonicalChar (anyDigitInRaw wordHasDigit : Bool) (alnumChars : List Char) (c : Char)
    (idx : ℕ) : Char :=
  let isDigitAt := fun i : ℕ => (alnumChars[i]?.map Char.isDigit).getD false
  let prevIsDigit := 0 < idx && isDigitAt (idx - 1)
  let nextIsDigit := isDigitAt (idx + 1)
  if wordHasDigit && (2 ≤ idx || prevIsDigit || nextIsDigit) then canonicalGlyph c.toUpper
  else if anyDigitInRaw && alnumChars.length ≤ 4 && (prevIsDigit || nextIsDigit) then
    canonicalGlyph c.toUpper
  else c.toUpper

def canonicalizeAlphanumericCode (raw : String) : String :=
  let anyDigitInRaw := raw.toList.any Char.isDigit
  String.ofList ((splitWhitespace raw).flatMap fun word =>
    let wordHasDigit := word.any Char.isDigit
    let alnumChars := word.filter Char.isAlphanum
    alnumChars.zipIdx.map fun c => canonicalChar anyDigitInRaw wordHasDigit alnumChars c.1 c.2)

/-- `str::to_ascii_lowercase` -/
def toAsciiLowercase (s : String) : String := String.ofList (s.toList.map Char.toLower)

/-! ### Spelling by sound -/

/-- `str::replace`, left to right; `skip` characters belong to an occurrence already read. -/
def replaceFrom (pat part : List Char) : ℕ → List Char → List Char
  | _, [] => []
  | skip + 1, _ :: cs => replaceFrom pat part skip cs
  | 0, c :: cs =>
    if pat.isPrefixOf (c :: cs) then part ++ replaceFrom pat part (pat.length - 1) cs
    else c :: replaceFrom pat part 0 cs

/-- A chain of calls of `str::replace`. -/
def replaceEach (rules : List (String × String)) (s : String) : String :=
  String.ofList (rules.foldl (fun cs r => replaceFrom r.1.toList r.2.toList 0 cs) s.toList)

/-- The consonants and digits, none twice in a row. -/
def consonants : Char → List Char → List Char
  | _, [] => []
  | prev, c :: cs =>
    if (c.isDigit || c ∉ ['a', 'e', 'i', 'o', 'u', '-', '_']) && c ≠ prev && c.isAlphanum then
      c.toUpper :: consonants c cs
    else consonants prev cs

def encodeRomancePhonetic (word : String) : String :=
  let clean := replaceEach [("sh", "x"), ("ch", "x"), ("tch", "x"), ("sw", "s"), ("ll", "y"),
    ("qu", "k"), ("ce", "se"), ("ci", "si"), ("ge", "je"), ("gi", "ji"), ("v", "b"), ("z", "s"),
    ("c", "k"), ("h", ""), ("nt", "t")] (stripAccentsAndLower word)
  String.ofList (consonants (Char.ofNat 0) clean.toList)

def encodeDoubleMetaphone (word : String) : String × String :=
  let lower := stripAccentsAndLower word
  let primary := replaceEach [("sch", "x"), ("sh", "x"), ("ch", "x"), ("ph", "f"), ("gh", "k"),
    ("kn", "n"), ("wr", "r"), ("ck", "k"), ("dg", "j"), ("w", "v"), ("z", "s")] lower
  let alt := replaceEach [("sch", "sk"), ("ch", "k"), ("ph", "f")] lower
  (encodeRomancePhonetic primary, encodeRomancePhonetic alt)

/-! ### Pieces of a token -/

/-- One word with one character less, when it is new and the word is long enough. -/
def deleteOnce (found : List (List Char) × List (List Char)) (item : List Char) :
    List (List Char) × List (List Char) :=
  if item.length ≤ 2 then found
  else (List.range item.length).foldl (fun acc i =>
    if item.eraseIdx i ∈ acc.1 then acc
    else (acc.1 ++ [item.eraseIdx i], acc.2 ++ [item.eraseIdx i])) found

/-- The level of words one deletion further. -/
def deleteLevel (found : List (List Char) × List (List Char)) :
    List (List Char) × List (List Char) :=
  found.2.foldl deleteOnce (found.1, [])

def generateSymspellDeletes (word : String) (maxDistance : ℕ) : List String :=
  (deleteLevel^[maxDistance] ([word.toList], [word.toList])).1.map String.ofList

/-- `slice::windows` -/
def windows (n : ℕ) (cs : List Char) : List (List Char) :=
  (List.range (cs.length + 1 - n)).map fun i => (cs.drop i).take n

def generateNgrams (token : String) : List String :=
  (((windows 2 token.toList ++ windows 3 token.toList).map String.ofList).insertionSort
    (· ≤ ·)).dedup

/-! ### Edit distance -/

/-- The entry of row `i` and column `j` over the rows before and the entries to its left. -/
def editCell (a b : List Char) (rows : List (List ℕ)) (row : List ℕ) (i j : ℕ) : ℕ :=
  let entry := fun i j : ℕ => (rows.getD i []).getD j 0
  let cost := if a[i - 1]? = b[j - 1]? then 0 else 1
  let best := min (min (entry (i - 1) j + 1) (row.getD (j - 1) 0 + 1)) (entry (i - 1) (j - 1) + cost)
  if 1 < i ∧ 1 < j ∧ a[i - 1]? = b[j - 2]? ∧ a[i - 2]? = b[j - 1]? then
    min best (entry (i - 2) (j - 2) + cost)
  else best

def damerauLevenshtein (a b : String) : ℕ :=
  let a := a.toList
  let b := b.toList
  let rows := (List.range' 1 a.length).foldl (fun rows i =>
    rows ++ [(List.range' 1 b.length).foldl (fun row j => row ++ [editCell a b rows row i j]) [i]])
    [List.range (b.length + 1)]
  (rows.getD a.length []).getD b.length 0

/-- `LevenshteinAutomatonDfa::accepts` of the automaton of a query. -/
def automatonAccepts (query : String) (maxEdits : ℕ) (candidate : String) : Bool :=
  let query := toAsciiLowercase query
  if maxEdits < max (query.utf8ByteSize - candidate.utf8ByteSize)
      (candidate.utf8ByteSize - query.utf8ByteSize) then false
  else damerauLevenshtein query (toAsciiLowercase candidate) ≤ maxEdits

example : canonicalizeAlphanumericCode "REF-62O5 / 2RS" = "REF62052RS" := by decide +kernel

end MetriEngine.Search
