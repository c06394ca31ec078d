import MetriEngine.Foundation.Text

/-!
# Characters as octets

The octets of a text are those of its characters, one after the other. A character below 128 is
one octet; any other begins with an octet that no character goes on with, and goes on with octets
that no character begins with. The octets of one text begin those of another only where the text
does.
-/
namespace MetriEngine.Foundation

/-- The octets of one character. -/
def encodeChar (c : Char) : List Byte := (String.utf8EncodeChar c).map UInt8.toFin

/-- `(b as i8) < -0x40`: an octet that a character goes on with. -/
def isContinuation (b : Byte) : Bool := 0x80 ≤ b.val && b.val < 0xC0

theorem utf8_eq_flatMap (s : String) : utf8 s = s.toList.flatMap encodeChar := by
  rw [utf8, ← String.utf8Encode_toList, List.utf8Encode, List.data_toByteArray, List.map_flatMap]
  rfl

theorem encodeChar_ne_nil (c : Char) : encodeChar c ≠ [] := by
  rw [encodeChar, ne_eq, List.map_eq_nil_iff]
  exact String.utf8EncodeChar_ne_nil

/-- A character is one octet, or a first octet and one that goes on. -/
theorem encodeChar_cases (c : Char) :
    (c.toNat < 0x80 ∧ ∃ b, encodeChar c = [b] ∧ isContinuation b = false) ∨
    (0x80 ≤ c.toNat ∧ ∃ b b' rest, encodeChar c = b :: b' :: rest ∧ isContinuation b = false ∧
      isContinuation b' = true) := by
  have hbyte (n : ℕ) : (UInt8.ofNat n).toFin.val = n % 256 := by
    rw [UInt8.toFin_val, UInt8.toNat_ofNat']
  have hnat : c.toNat = c.val.toNat := rfl
  have hlead (n : ℕ) (h : n % 256 < 0x80 ∨ 0xC0 ≤ n % 256) :
      isContinuation (UInt8.ofNat n).toFin = false := by
    rw [isContinuation, hbyte]
    simp only [Bool.and_eq_false_iff, decide_eq_false_iff_not]
    omega
  have hnext (n : ℕ) : isContinuation (UInt8.ofNat (n % 64 + 128)).toFin = true := by
    rw [isContinuation, hbyte]
    simp only [Bool.and_eq_true, decide_eq_true_eq]
    omega
  rw [encodeChar, String.utf8EncodeChar, hnat]
  split_ifs with h1 h2 h3
  · exact Or.inl ⟨by omega, _, rfl, hlead _ (by omega)⟩
  · exact Or.inr ⟨by omega, _, _, _, rfl, hlead _ (by omega), hnext _⟩
  · exact Or.inr ⟨by omega, _, _, _, rfl, hlead _ (by omega), hnext _⟩
  · exact Or.inr ⟨by omega, _, _, _, rfl, hlead _ (by omega), hnext _⟩

/-- From what begins with the octets of a character the character is read back. -/
theorem encodeChar_append_inj {c d : Char} {p q : List Byte}
    (h : encodeChar c ++ p = encodeChar d ++ q) : c = d ∧ p = q := by
  have hchar : c = d := by
    have hoctets := congrArg (fun l => (l.map UInt8.ofFin).toByteArray) h
    have hread (c : Char) (p : List Byte) :
        (((encodeChar c ++ p).map UInt8.ofFin).toByteArray).utf8DecodeChar? 0 = some c := by
      have hback : (encodeChar c).map UInt8.ofFin = String.utf8EncodeChar c := by
        rw [encodeChar, List.map_map]
        exact List.map_id _
      rw [List.map_append, hback, List.toByteArray_append, ← List.utf8Encode_singleton]
      exact List.utf8DecodeChar?_utf8Encode_singleton_append
    have hsame := hread c p
    rw [hoctets, hread d q] at hsame
    exact (Option.some.inj hsame).symm
  subst hchar
  exact ⟨rfl, List.append_cancel_left h⟩

theorem flatMap_encodeChar_prefix_iff {a b : List Char} :
    a.flatMap encodeChar <+: b.flatMap encodeChar ↔ a <+: b := by
  induction a generalizing b with
  | nil => simp
  | cons c a ih =>
    cases b with
    | nil => simp [encodeChar_ne_nil]
    | cons d b =>
      rw [List.flatMap_cons, List.flatMap_cons, List.cons_prefix_cons, ← ih]
      constructor
      · rintro ⟨rest, hrest⟩
        rw [List.append_assoc] at hrest
        obtain ⟨hchar, htail⟩ := encodeChar_append_inj hrest
        exact ⟨hchar, rest, htail⟩
      · rintro ⟨rfl, h⟩
        exact List.prefix_append_right_inj _ |>.mpr h

end MetriEngine.Foundation
