import MetriEngine.Foundation.OrdMap
import MetriEngine.Foundation.Utf8
import MetriEngine.Storage.Wire

/-!
# The table of symbols

Frequent texts have a code of one byte, at most 255 of them. A text is compressed by taking the
longest symbol at each place, or one byte behind an escape where there is none. The text from a
place on can be taken only where a character begins, and an escaped byte leaves the scan inside
its character when the character has more than one.
-/
namespace MetriEngine.Storage.PaxMvcc
open Foundation

structure FsstSymbolTable where
  symbols : List String
  symbolToCode : OrdMap String Byte

namespace FsstSymbolTable

def escapeCode : Byte := 0xFF

def new : FsstSymbolTable := ⟨[], ∅⟩

def internOrEscape (t : FsstSymbolTable) (text : String) : FsstSymbolTable × Option Byte :=
  match t.symbolToCode.lookup text with
  | some code => (t, some code)
  | none =>
    if t.symbols.length < 255 then
      let code : Byte := Fin.ofNat 256 t.symbols.length
      (⟨t.symbols ++ [text], t.symbolToCode.insert text code⟩, some code)
    else (t, none)

def decodeSymbol (t : FsstSymbolTable) (code : Byte) : Option String := t.symbols[code.val]?

/-- One turn of the loop over the symbols: a longer match replaces the one at hand. -/
def takeMatch (remaining : List Byte) (matched : Option (Byte × ℕ)) (entry : String × ℕ) :
    Option (Byte × ℕ) :=
  if entry.1 ≠ "" ∧ utf8 entry.1 <+: remaining ∧
      ∀ best ∈ matched, best.2 < (utf8 entry.1).length then
    some (Fin.ofNat 256 entry.2, (utf8 entry.1).length)
  else matched

def longestMatch (symbols : List String) (remaining : List Byte) : Option (Byte × ℕ) :=
  symbols.zipIdx.foldl (takeMatch remaining) none

/-- The scan from the bytes that are left. Nothing stands for the panic of `&text[pos..]` inside
a character. -/
def compressFrom (symbols : List String) : List Byte → Option (List Byte)
  | [] => some []
  | b :: bytes =>
    if isContinuation b then none
    else match longestMatch symbols (b :: bytes) with
      -- a match is not empty, so what is left begins behind the first byte
      | some (code, slen) => (compressFrom symbols (bytes.drop (slen - 1))).map (code :: ·)
      | none => (compressFrom symbols bytes).map (escapeCode :: b :: ·)
termination_by bytes => bytes.length
decreasing_by all_goals simp

def compressBytes (t : FsstSymbolTable) (text : String) : Option (List Byte) :=
  match t.symbolToCode.lookup text with
  | some exactCode => some [exactCode]
  | none => compressFrom t.symbols (utf8 text)

def decompressRaw (t : FsstSymbolTable) : List Byte → List Byte
  | [] => []
  | [b] => if b = escapeCode then [] else ((t.decodeSymbol b).map utf8).getD []
  | b :: b' :: rest =>
    if b = escapeCode then b' :: decompressRaw t rest
    else ((t.decodeSymbol b).map utf8).getD [] ++ decompressRaw t (b' :: rest)

def decompressBytes [WireFormats] (t : FsstSymbolTable) (compressed : List Byte) : String :=
  WireFormats.fromUtf8Lossy (t.decompressRaw compressed)

/-- The table after these calls of `intern_or_escape`. -/
def internAll (texts : List String) : FsstSymbolTable :=
  texts.foldl (fun t text => (t.internOrEscape text).1) new

/-! ### What interning keeps -/

/-- No more than 255 symbols, and the codes name them. -/
structure Coherent (t : FsstSymbolTable) : Prop where
  length : t.symbols.length ≤ 255
  codes : ∀ s c, t.symbolToCode.lookup s = some c ↔ t.symbols[c.val]? = some s

theorem coherent_new : new.Coherent :=
  ⟨by simp [new], fun s c => by simp [new]⟩

/-- A text without a code is no symbol. -/
theorem Coherent.not_mem {t : FsstSymbolTable} (h : t.Coherent) {text : String}
    (hlookup : t.symbolToCode.lookup text = none) : text ∉ t.symbols := by
  intro hmem
  obtain ⟨i, hi⟩ := List.mem_iff_getElem?.mp hmem
  have hlt : i < t.symbols.length := (List.getElem?_eq_some_iff.mp hi).1
  have hroom := h.length
  have hval : (Fin.ofNat 256 i : Byte).val = i := by
    rw [Fin.val_ofNat]
    omega
  have hfound := (h.codes text (Fin.ofNat 256 i)).mpr (by rw [hval]; exact hi)
  rw [hlookup] at hfound
  cases hfound

theorem Coherent.internOrEscape {t : FsstSymbolTable} (h : t.Coherent) (text : String) :
    (t.internOrEscape text).1.Coherent := by
  rw [FsstSymbolTable.internOrEscape]
  cases hlookup : t.symbolToCode.lookup text with
  | some code => exact h
  | none =>
    by_cases hroom : t.symbols.length < 255
    · simp only [hroom, if_true]
      have hcode : (Fin.ofNat 256 t.symbols.length : Byte).val = t.symbols.length := by
        rw [Fin.val_ofNat]
        omega
      have hfresh := h.not_mem hlookup
      constructor
      · rw [List.length_append, List.length_singleton]
        omega
      · intro s c
        rw [OrdMap.lookup_insert, List.getElem?_append]
        by_cases hs : s = text
        · subst hs
          simp only [if_true, Option.some.injEq]
          split_ifs with hc
          · constructor
            · rintro rfl
              omega
            · intro hfound
              exact absurd (List.mem_of_getElem? hfound) hfresh
          · rw [List.getElem?_singleton]
            constructor
            · rintro rfl
              rw [hcode, Nat.sub_self]
              rfl
            · intro hfound
              split_ifs at hfound with hzero
              apply Fin.ext
              rw [hcode]
              omega
        · rw [if_neg hs, h.codes]
          split_ifs with hc
          · rfl
          · rw [List.getElem?_singleton, List.getElem?_eq_none (by omega)]
            split_ifs with hzero
            · simp [Ne.symm hs]
            · rfl
    · simp only [hroom, if_false]
      exact h

theorem coherent_internAll (texts : List String) : (internAll texts).Coherent := by
  induction texts using List.reverseRecOn with
  | nil => exact coherent_new
  | append_singleton texts text ih =>
    rw [internAll, List.foldl_append]
    exact ih.internOrEscape text

theorem Coherent.nodup {t : FsstSymbolTable} (h : t.Coherent) : t.symbols.Nodup := by
  rw [List.nodup_iff_getElem?_ne_getElem?]
  intro i j hij hj heq
  have hroom := h.length
  have hi : (Fin.ofNat 256 i : Byte).val = i := by
    rw [Fin.val_ofNat]
    omega
  have hj' : (Fin.ofNat 256 j : Byte).val = j := by
    rw [Fin.val_ofNat]
    omega
  have hget := List.getElem?_eq_getElem hj
  have hcode := (h.codes _ (Fin.ofNat 256 j)).mpr (by rw [hj']; exact hget)
  have hcode' := (h.codes _ (Fin.ofNat 256 i)).mpr (by rw [hi]; exact heq.trans hget)
  rw [hcode] at hcode'
  have hval := congrArg Fin.val (Option.some.inj hcode')
  omega

/-- The symbols determine the codes. -/
theorem Coherent.eq_of_symbols {t t' : FsstSymbolTable} (h : t.Coherent) (h' : t'.Coherent)
    (heq : t.symbols = t'.symbols) : t = t' := by
  obtain ⟨symbols, codes⟩ := t
  obtain ⟨symbols', codes'⟩ := t'
  cases heq
  congr 1
  apply OrdMap.ext
  intro s
  ext c
  exact (h.codes s c).trans (h'.codes s c).symm

/-- Distinct texts that fit are the symbols, in their order. -/
theorem symbols_internAll {texts : List String} (hnodup : texts.Nodup) (hlen : texts.length ≤ 255) :
    (internAll texts).symbols = texts := by
  induction texts using List.reverseRecOn with
  | nil => rfl
  | append_singleton texts text ih =>
    rw [List.length_append, List.length_singleton] at hlen
    obtain ⟨hold, -, hapart⟩ := List.nodup_append.mp hnodup
    have hsymbols := ih hold (by omega)
    have hfresh : (internAll texts).symbolToCode.lookup text = none := by
      rw [Option.eq_none_iff_forall_ne_some]
      intro c hc
      have hmem := List.mem_of_getElem? (((coherent_internAll texts).codes text c).mp hc)
      rw [hsymbols] at hmem
      exact hapart text hmem text (List.mem_singleton_self text) rfl
    have hstep : internAll (texts ++ [text]) = ((internAll texts).internOrEscape text).1 := by
      rw [internAll, List.foldl_append]
      rfl
    rw [hstep, FsstSymbolTable.internOrEscape, hfresh]
    dsimp only
    rw [if_pos (by rw [hsymbols]; omega)]
    dsimp only
    rw [hsymbols]

/-- A table is made again by interning its symbols. -/
theorem Coherent.internAll_symbols {t : FsstSymbolTable} (h : t.Coherent) :
    internAll t.symbols = t :=
  (coherent_internAll t.symbols).eq_of_symbols h (symbols_internAll h.nodup h.length)

/-! ### The longest match -/

/-- What a search over these symbols may find: a symbol in front of the text that no other one in
front of it is longer than, or nothing when there is none. -/
def Answers (symbols : List String) (remaining : List Byte) : Option (Byte × ℕ) → Prop
  | none => ∀ other ∈ symbols, other ≠ "" → ¬utf8 other <+: remaining
  | some (code, slen) => (∃ sym, symbols[code.val]? = some sym ∧ sym ≠ "" ∧
      utf8 sym <+: remaining ∧ slen = (utf8 sym).length) ∧
      ∀ other ∈ symbols, utf8 other <+: remaining → (utf8 other).length ≤ slen

theorem utf8_empty : utf8 "" = [] := rfl

theorem Answers.takeMatch {symbols : List String} {remaining : List Byte}
    {matched : Option (Byte × ℕ)} (h : Answers symbols remaining matched) (s : String)
    (hroom : symbols.length < 255) :
    Answers (symbols ++ [s]) remaining
      (FsstSymbolTable.takeMatch remaining matched (s, symbols.length)) := by
  have hcode : (Fin.ofNat 256 symbols.length : Byte).val = symbols.length := by
    rw [Fin.val_ofNat]
    omega
  rw [FsstSymbolTable.takeMatch]
  split_ifs with htake
  · obtain ⟨hne, hpre, hlonger⟩ := htake
    refine ⟨⟨s, by rw [hcode, List.getElem?_concat_length], hne, hpre, rfl⟩, ?_⟩
    intro other hother hfront
    rcases List.mem_append.mp hother with hold | hnew
    · cases matched with
      | none =>
        by_cases hempty : other = ""
        · rw [hempty, utf8_empty]
          exact Nat.zero_le _
        · exact absurd hfront (h other hold hempty)
      | some best =>
        have hle := h.2 other hold hfront
        have hlt := hlonger best rfl
        omega
    · rw [List.mem_singleton.mp hnew]
  · cases matched with
    | none =>
      intro other hother hne hfront
      rcases List.mem_append.mp hother with hold | hnew
      · exact h other hold hne hfront
      · rw [List.mem_singleton.mp hnew] at hne hfront
        exact htake ⟨hne, hfront, by simp⟩
    | some best =>
      obtain ⟨⟨sym, hsym, hne, hpre, hslen⟩, hmax⟩ := h
      refine ⟨⟨sym, ?_, hne, hpre, hslen⟩, ?_⟩
      · rw [List.getElem?_append_left (List.getElem?_eq_some_iff.mp hsym).1]
        exact hsym
      · intro other hother hfront
        rcases List.mem_append.mp hother with hold | hnew
        · exact hmax other hold hfront
        · rw [List.mem_singleton.mp hnew] at hfront ⊢
          by_cases hempty : s = ""
          · rw [hempty, utf8_empty]
            exact Nat.zero_le _
          · by_contra hlt
            exact htake ⟨hempty, hfront, fun b hb => by
              cases hb
              exact Nat.lt_of_not_le hlt⟩

theorem answers_longestMatch {symbols : List String} (hroom : symbols.length ≤ 255)
    (remaining : List Byte) : Answers symbols remaining (longestMatch symbols remaining) := by
  induction symbols using List.reverseRecOn with
  | nil => simp [longestMatch, Answers]
  | append_singleton symbols s ih =>
    rw [List.length_append, List.length_singleton] at hroom
    rw [longestMatch, List.zipIdx_append, List.foldl_append]
    simp only [List.zipIdx_singleton, Nat.zero_add, List.foldl_cons, List.foldl_nil]
    exact (ih (by omega)).takeMatch s (by omega)

/-! ### What comes back -/

theorem decompressRaw_escape (t : FsstSymbolTable) (b : Byte) (out : List Byte) :
    t.decompressRaw (escapeCode :: b :: out) = b :: t.decompressRaw out := by
  rw [decompressRaw, if_pos rfl]

theorem decompressRaw_symbol {t : FsstSymbolTable} {code : Byte} {sym : String}
    (hcode : code ≠ escapeCode) (hsym : t.decodeSymbol code = some sym) (out : List Byte) :
    t.decompressRaw (code :: out) = utf8 sym ++ t.decompressRaw out := by
  cases out with
  | nil => simp [decompressRaw, hcode, hsym]
  | cons b out => simp [decompressRaw, hcode, hsym]

theorem code_ne_escape {symbols : List String} (hroom : symbols.length ≤ 255) {code : Byte}
    {sym : String} (h : symbols[code.val]? = some sym) : code ≠ escapeCode := by
  rintro rfl
  have hlt := (List.getElem?_eq_some_iff.mp h).1
  change 255 < symbols.length at hlt
  omega

/-- A symbol in front of the text and what is left behind it. -/
theorem drop_of_prefix {sym : String} {b : Byte} {bytes : List Byte} (hne : sym ≠ "")
    (hpre : utf8 sym <+: b :: bytes) :
    utf8 sym ++ bytes.drop ((utf8 sym).length - 1) = b :: bytes := by
  obtain ⟨rest, hrest⟩ := hpre
  cases hbytes : utf8 sym with
  | nil => exact absurd (utf8_injective (hbytes.trans utf8_empty.symm)) hne
  | cons b' bytes' =>
    rw [hbytes, List.cons_append, List.cons.injEq] at hrest
    rw [← hrest.2, hrest.1, List.length_cons, Nat.add_sub_cancel, List.drop_left,
      List.cons_append]

/-- Whatever the scan writes is decompressed to what it scanned. -/
theorem decompressRaw_compressFrom {t : FsstSymbolTable} (hroom : t.symbols.length ≤ 255)
    (bytes : List Byte) :
    ∀ out, compressFrom t.symbols bytes = some out → t.decompressRaw out = bytes := by
  induction bytes using compressFrom.induct t.symbols with
  | case1 =>
    intro out h
    rw [compressFrom, Option.some.injEq] at h
    rw [← h, decompressRaw]
  | case2 b bytes hcont =>
    intro out h
    rw [compressFrom, if_pos hcont] at h
    cases h
  | case3 b bytes hcont code slen hmatch ih =>
    intro out h
    rw [compressFrom, if_neg hcont, hmatch] at h
    obtain ⟨rest, hrest, rfl⟩ := Option.map_eq_some_iff.mp h
    have hanswer := answers_longestMatch hroom (b :: bytes)
    rw [hmatch] at hanswer
    obtain ⟨⟨sym, hsym, hne, hpre, rfl⟩, -⟩ := hanswer
    rw [decompressRaw_symbol (code_ne_escape hroom hsym) hsym, ih rest hrest,
      drop_of_prefix hne hpre]
  | case4 b bytes hcont hnone ih =>
    intro out h
    rw [compressFrom, if_neg hcont, hnone] at h
    obtain ⟨rest, hrest, rfl⟩ := Option.map_eq_some_iff.mp h
    rw [decompressRaw_escape, ih rest hrest]

/-! ### Where the scan goes through -/

/-- The scan over the characters: the longest symbol where there is one, and a character of one
byte where there is none. -/
inductive Scans (symbols : List String) : List Char → Prop
  | done : Scans symbols []
  | symbol {sym : String} {rest : List Char} : sym ∈ symbols → sym ≠ "" →
      (∀ other ∈ symbols, other.toList <+: sym.toList ++ rest →
        other.toList.length ≤ sym.toList.length) →
      Scans symbols rest → Scans symbols (sym.toList ++ rest)
  | ascii {c : Char} {rest : List Char} :
      (∀ other ∈ symbols, other ≠ "" → ¬other.toList <+: c :: rest) → c.toNat < 0x80 →
      Scans symbols rest → Scans symbols (c :: rest)

theorem utf8_prefix_iff (s : String) (cs : List Char) :
    utf8 s <+: cs.flatMap encodeChar ↔ s.toList <+: cs := by
  rw [utf8_eq_flatMap, flatMap_encodeChar_prefix_iff]

/-- Of two texts in front of a third the longer in bytes is the longer in characters. -/
theorem length_le_of_isFront {s t : String} {cs : List Char} (hs : s.toList <+: cs)
    (ht : t.toList <+: cs) :
    (utf8 s).length ≤ (utf8 t).length ↔ s.toList.length ≤ t.toList.length := by
  rw [utf8_eq_flatMap, utf8_eq_flatMap]
  constructor
  · intro hbytes
    have hfront := List.prefix_of_prefix_length_le
      (flatMap_encodeChar_prefix_iff.mpr hs) (flatMap_encodeChar_prefix_iff.mpr ht) hbytes
    exact (flatMap_encodeChar_prefix_iff.mp hfront).length_le
  · intro hchars
    have hfront := List.prefix_of_prefix_length_le hs ht hchars
    exact (flatMap_encodeChar_prefix_iff.mpr hfront).length_le

/-- What the scan finds in front of these characters, in characters. -/
theorem longestMatch_chars {symbols : List String} (hroom : symbols.length ≤ 255)
    (cs : List Char) :
    (longestMatch symbols (cs.flatMap encodeChar) = none ∧
      ∀ other ∈ symbols, other ≠ "" → ¬other.toList <+: cs) ∨
    (∃ code sym rest, longestMatch symbols (cs.flatMap encodeChar) =
        some (code, (utf8 sym).length) ∧ symbols[code.val]? = some sym ∧ sym ≠ "" ∧
        cs = sym.toList ++ rest ∧
        ∀ other ∈ symbols, other.toList <+: cs → other.toList.length ≤ sym.toList.length) := by
  have hanswer := answers_longestMatch hroom (cs.flatMap encodeChar)
  cases hmatch : longestMatch symbols (cs.flatMap encodeChar) with
  | none =>
    rw [hmatch] at hanswer
    refine Or.inl ⟨rfl, fun other hother hne hfront => ?_⟩
    exact hanswer other hother hne ((utf8_prefix_iff other cs).mpr hfront)
  | some found =>
    obtain ⟨code, slen⟩ := found
    rw [hmatch] at hanswer
    obtain ⟨⟨sym, hsym, hne, hpre, rfl⟩, hmax⟩ := hanswer
    rw [utf8_prefix_iff] at hpre
    obtain ⟨rest, hrest⟩ := hpre
    refine Or.inr ⟨code, sym, rest, rfl, hsym, hne, hrest.symm, fun other hother hfront => ?_⟩
    have hle := hmax other hother ((utf8_prefix_iff other cs).mpr hfront)
    exact (length_le_of_isFront hfront ⟨rest, hrest⟩).mp hle

/-- The first byte of a character is not one a character goes on with. -/
theorem flatMap_cons_head (c : Char) (cs : List Char) : ∃ b bytes,
    (c :: cs).flatMap encodeChar = b :: bytes ∧ isContinuation b = false := by
  rw [List.flatMap_cons]
  rcases encodeChar_cases c with ⟨-, b, hb, hcont⟩ | ⟨-, b, b', rest, hb, hcont, -⟩
  · exact ⟨b, _, by rw [hb]; rfl, hcont⟩
  · exact ⟨b, _, by rw [hb]; rfl, hcont⟩

theorem compressFrom_symbol {symbols : List String} {code : Byte} {sym : String}
    {rest : List Char} (hne : sym ≠ "")
    (hmatch : longestMatch symbols ((sym.toList ++ rest).flatMap encodeChar) =
      some (code, (utf8 sym).length)) :
    compressFrom symbols ((sym.toList ++ rest).flatMap encodeChar) =
      (compressFrom symbols (rest.flatMap encodeChar)).map (code :: ·) := by
  cases hchars : sym.toList with
  | nil => exact absurd (String.toList_inj.mp hchars) hne
  | cons c cs =>
    obtain ⟨b, bytes, hbytes, hcont⟩ := flatMap_cons_head c (cs ++ rest)
    rw [hchars, List.cons_append, hbytes] at hmatch
    have hfront : utf8 sym <+: b :: bytes := by
      rw [← hbytes, utf8_prefix_iff, hchars, ← List.cons_append]
      exact List.prefix_append _ _
    have hdrop := drop_of_prefix hne hfront
    have hrest : bytes.drop ((utf8 sym).length - 1) = rest.flatMap encodeChar := by
      have hwhole : utf8 sym ++ rest.flatMap encodeChar = b :: bytes := by
        rw [← hbytes, utf8_eq_flatMap, ← List.flatMap_append, hchars, List.cons_append]
      exact List.append_cancel_left (hdrop.trans hwhole.symm)
    rw [List.cons_append, hbytes, compressFrom, if_neg (by simp [hcont]), hmatch]
    simp only [hrest]

theorem compressFrom_ascii {symbols : List String} {c : Char} {rest : List Char}
    (hascii : c.toNat < 0x80)
    (hmatch : longestMatch symbols ((c :: rest).flatMap encodeChar) = none) : ∃ b,
    compressFrom symbols ((c :: rest).flatMap encodeChar) =
      (compressFrom symbols (rest.flatMap encodeChar)).map (escapeCode :: b :: ·) := by
  rcases encodeChar_cases c with ⟨-, b, hb, hcont⟩ | ⟨hwide, -⟩
  · rw [List.flatMap_cons, hb, List.singleton_append] at hmatch ⊢
    exact ⟨b, by rw [compressFrom, if_neg (by simp [hcont]), hmatch]⟩
  · omega

/-- Behind an escaped byte of a longer character the scan stops. -/
theorem compressFrom_wide {symbols : List String} {c : Char} {rest : List Char}
    (hwide : ¬c.toNat < 0x80)
    (hmatch : longestMatch symbols ((c :: rest).flatMap encodeChar) = none) :
    compressFrom symbols ((c :: rest).flatMap encodeChar) = none := by
  rcases encodeChar_cases c with ⟨hascii, -⟩ | ⟨-, b, b', bytes, hb, hcont, hnext⟩
  · omega
  · rw [List.flatMap_cons, hb, List.cons_append, List.cons_append] at hmatch ⊢
    rw [compressFrom, if_neg (by simp [hcont]), hmatch]
    simp only
    rw [compressFrom, if_pos hnext]
    rfl

theorem Scans.cases_of {symbols : List String} {cs : List Char} (h : Scans symbols cs) :
    cs = [] ∨
    (∃ sym rest, cs = sym.toList ++ rest ∧ sym ∈ symbols ∧ sym ≠ "" ∧
      (∀ other ∈ symbols, other.toList <+: cs → other.toList.length ≤ sym.toList.length) ∧
      Scans symbols rest) ∨
    (∃ c rest, cs = c :: rest ∧ (∀ other ∈ symbols, other ≠ "" → ¬other.toList <+: cs) ∧
      c.toNat < 0x80 ∧ Scans symbols rest) := by
  cases h with
  | done => exact Or.inl rfl
  | symbol hmem hne hmax hrest => exact Or.inr (Or.inl ⟨_, _, rfl, hmem, hne, hmax, hrest⟩)
  | ascii hnone hascii hrest => exact Or.inr (Or.inr ⟨_, _, rfl, hnone, hascii, hrest⟩)

/-- Behind the longest symbol the scan goes on as it would alone. -/
theorem scans_symbol_iff {symbols : List String} {sym : String} {rest : List Char}
    (hmem : sym ∈ symbols) (hne : sym ≠ "")
    (hmax : ∀ other ∈ symbols, other.toList <+: sym.toList ++ rest →
      other.toList.length ≤ sym.toList.length) :
    Scans symbols (sym.toList ++ rest) ↔ Scans symbols rest := by
  constructor
  · intro h
    rcases h.cases_of with hnil | ⟨sym', rest', heq, hmem', -, hmax', hrest⟩ |
      ⟨c, rest', -, hnone, -, -⟩
    · exact absurd (String.toList_inj.mp (List.append_eq_nil_iff.mp hnil).1) hne
    · have hle := hmax sym' hmem' (heq ▸ List.prefix_append _ _)
      have hge := hmax' sym hmem (List.prefix_append _ _)
      obtain ⟨-, hsame⟩ := List.append_inj heq (by omega)
      rw [hsame]
      exact hrest
    · exact absurd (List.prefix_append _ _) (hnone sym hmem hne)
  · exact Scans.symbol hmem hne hmax

/-- Where no symbol stands in front the scan goes on behind a character of one byte. -/
theorem scans_cons_iff {symbols : List String} {c : Char} {rest : List Char}
    (hnone : ∀ other ∈ symbols, other ≠ "" → ¬other.toList <+: c :: rest) :
    Scans symbols (c :: rest) ↔ c.toNat < 0x80 ∧ Scans symbols rest := by
  constructor
  · intro h
    rcases h.cases_of with hnil | ⟨sym, rest', heq, hmem, hne, -, -⟩ |
      ⟨c', rest', heq, -, hascii, hrest⟩
    · cases hnil
    · exact absurd (heq ▸ List.prefix_append _ _) (hnone sym hmem hne)
    · cases heq
      exact ⟨hascii, hrest⟩
  · rintro ⟨hascii, hrest⟩
    exact Scans.ascii hnone hascii hrest

/-- The scan over the bytes gets to the end exactly when the one over the characters does. -/
theorem compressFrom_isSome_iff {symbols : List String} (hroom : symbols.length ≤ 255)
    (cs : List Char) :
    (compressFrom symbols (cs.flatMap encodeChar)).isSome = true ↔ Scans symbols cs := by
  induction hlen : cs.length using Nat.strong_induction_on generalizing cs with
  | _ n ih =>
    rcases longestMatch_chars hroom cs with ⟨hmatch, hnone⟩ |
      ⟨code, sym, rest, hmatch, hsym, hne, rfl, hmax⟩
    · cases cs with
      | nil => simp [compressFrom, Scans.done]
      | cons c rest =>
        rw [List.length_cons] at hlen
        rw [scans_cons_iff hnone]
        by_cases hascii : c.toNat < 0x80
        · obtain ⟨b, hstep⟩ := compressFrom_ascii hascii hmatch
          rw [hstep, Option.isSome_map, ih rest.length (by omega) rest rfl]
          exact ⟨fun h => ⟨hascii, h⟩, And.right⟩
        · rw [compressFrom_wide hascii hmatch]
          simp [hascii]
    · have hpos : 0 < sym.toList.length := by
        rw [List.length_pos_iff_ne_nil]
        exact fun hnil => hne (String.toList_inj.mp hnil)
      rw [List.length_append] at hlen
      rw [compressFrom_symbol hne hmatch, Option.isSome_map, ih rest.length (by omega) rest rfl,
        scans_symbol_iff (List.mem_of_getElem? hsym) hne hmax]

/-- A text is compressed and comes back exactly when it is a symbol itself or when the scan over
it meets no character of more than one byte without a symbol in front of it. -/
theorem compress_round_trip_iff [WireFormats] (interned : List String) (text : String) :
    ((internAll interned).compressBytes text).map (internAll interned).decompressBytes =
        some text ↔
      text ∈ (internAll interned).symbols ∨ Scans (internAll interned).symbols text.toList := by
  have hcoherent := coherent_internAll interned
  rw [compressBytes]
  cases hlookup : (internAll interned).symbolToCode.lookup text with
  | some code =>
    have hsym := (hcoherent.codes text code).mp hlookup
    have hraw : (internAll interned).decompressRaw [code] = utf8 text := by
      rw [decompressRaw_symbol (code_ne_escape hcoherent.length hsym) hsym, decompressRaw,
        List.append_nil]
    simp only [Option.map_some, decompressBytes, hraw, WireFormats.fromUtf8Lossy_utf8, true_iff]
    exact Or.inl (List.mem_of_getElem? hsym)
  | none =>
    have hnot := hcoherent.not_mem hlookup
    simp only [hnot, false_or]
    rw [← compressFrom_isSome_iff hcoherent.length, utf8_eq_flatMap]
    cases hscan : compressFrom (internAll interned).symbols (text.toList.flatMap encodeChar) with
    | none => simp
    | some out =>
      have hraw := decompressRaw_compressFrom hcoherent.length _ out hscan
      simp only [Option.map_some, decompressBytes, hraw, Option.isSome_some, iff_true]
      rw [← utf8_eq_flatMap, WireFormats.fromUtf8Lossy_utf8]

/-- With no symbols a text of one character of two bytes cannot be compressed. -/
theorem accent_panics :
    ((internAll []).compressBytes "é").map (@decompressBytes .stored (internAll [])) ≠
      some "é" := by
  have hbytes : utf8 "é" = [0xC3, 0xA9] := by decide +kernel
  have hscan : (internAll []).compressBytes "é" = none := by
    change compressFrom [] (utf8 "é") = none
    rw [hbytes]
    simp [compressFrom, isContinuation, longestMatch]
  rw [hscan]
  simp

end FsstSymbolTable
end MetriEngine.Storage.PaxMvcc
