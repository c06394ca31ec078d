import MetriEngine.Foundation.Text

/-!
# Base64

Three octets are four letters of six bits each. One or two octets at the end are filled up with
zero bits and padded with `=`; what is read back has its padding, and zeros in the bits that
were filled up.
-/
namespace MetriEngine.Foundation.Base64

/-- The letter of six bits. -/
def symbol (n : ℕ) : Char :=
  if n < 26 then Char.ofNat (n + 65)
  else if n < 52 then Char.ofNat (n + 71)
  else if n < 62 then Char.ofNat (n - 4)
  else if n = 62 then '+'
  else '/'

def value (c : Char) : Option ℕ :=
  let n := c.toNat
  if 65 ≤ n ∧ n ≤ 90 then some (n - 65)
  else if 97 ≤ n ∧ n ≤ 122 then some (n - 71)
  else if 48 ≤ n ∧ n ≤ 57 then some (n + 4)
  else if n = 43 then some 62
  else if n = 47 then some 63
  else none

theorem value_symbol {n : ℕ} (h : n < 64) : value (symbol n) = some n := by
  have hall : ∀ n < 64, value (symbol n) = some n := by decide
  exact hall n h

theorem symbol_ne_padding {n : ℕ} (h : n < 64) : symbol n ≠ '=' := by
  have hall : ∀ n < 64, symbol n ≠ '=' := by decide
  exact hall n h

def encode : List Byte → List Char
  | [] => []
  | [a] => [symbol (a.val / 4), symbol (a.val % 4 * 16), '=', '=']
  | [a, b] =>
    [symbol (a.val / 4), symbol (a.val % 4 * 16 + b.val / 16), symbol (b.val % 16 * 4), '=']
  | a :: b :: c :: rest =>
    symbol (a.val / 4) :: symbol (a.val % 4 * 16 + b.val / 16) ::
      symbol (b.val % 16 * 4 + c.val / 64) :: symbol (c.val % 64) :: encode rest

def byte (n : ℕ) : Byte := Fin.ofNat 256 n

/-- The octet of a last group of two letters. -/
def lastOne (x y : Char) : Option (List Byte) := do
  let u ← value x
  let v ← value y
  if v % 16 = 0 then some [byte (u * 4 + v / 16)] else none

/-- The octets of a last group of three letters. -/
def lastTwo (x y z : Char) : Option (List Byte) := do
  let u ← value x
  let v ← value y
  let w ← value z
  if w % 4 = 0 then some [byte (u * 4 + v / 16), byte (v % 16 * 16 + w / 4)] else none

def three (x y z w : Char) : Option (List Byte) := do
  let s ← value x
  let t ← value y
  let u ← value z
  let v ← value w
  some [byte (s * 4 + t / 16), byte (t % 16 * 16 + u / 4), byte (u % 4 * 64 + v)]

def decode : List Char → Option (List Byte)
  | [] => some []
  | x :: y :: z :: w :: rest =>
    if rest = [] ∧ w = '=' then
      if z = '=' then lastOne x y else lastTwo x y z
    else (three x y z w).bind fun group => (decode rest).map fun tail => group ++ tail
  | _ => none

theorem byte_of_eq {a : Byte} {n : ℕ} (h : n = a.val) : byte n = a := by
  subst h
  exact Fin.ofNat_val_eq_self a

theorem decode_encode (bytes : List Byte) : decode (encode bytes) = some bytes := by
  induction bytes using encode.induct with
  | case1 => rfl
  | case2 a =>
    have ha := a.isLt
    simp only [encode, decode, lastOne, value_symbol (by omega : a.val / 4 < 64),
      value_symbol (by omega : a.val % 4 * 16 < 64), Option.bind_eq_bind, Option.bind_some,
      and_self, if_true]
    rw [if_pos (by omega), byte_of_eq (by omega : _ = a.val)]
  | case3 a b =>
    have ha := a.isLt
    have hb := b.isLt
    simp only [encode, decode, lastTwo, value_symbol (by omega : a.val / 4 < 64),
      value_symbol (by omega : a.val % 4 * 16 + b.val / 16 < 64),
      value_symbol (by omega : b.val % 16 * 4 < 64), Option.bind_eq_bind, Option.bind_some,
      and_self, if_true]
    rw [if_neg (symbol_ne_padding (by omega)), if_pos (by omega),
      byte_of_eq (by omega : _ = a.val), byte_of_eq (by omega : _ = b.val)]
  | case4 a b c rest ih =>
    have ha := a.isLt
    have hb := b.isLt
    have hc := c.isLt
    have hlast : symbol (c.val % 64) ≠ '=' := symbol_ne_padding (by omega)
    simp only [encode, decode, three, value_symbol (by omega : a.val / 4 < 64),
      value_symbol (by omega : a.val % 4 * 16 + b.val / 16 < 64),
      value_symbol (by omega : b.val % 16 * 4 + c.val / 64 < 64),
      value_symbol (by omega : c.val % 64 < 64), Option.bind_eq_bind, Option.bind_some]
    rw [if_neg fun h => hlast h.2, ih, byte_of_eq (by omega : _ = a.val),
      byte_of_eq (by omega : _ = b.val), byte_of_eq (by omega : _ = c.val)]
    rfl

example : encode (utf8 "10:10") = "MTA6MTA=".toList := by decide +kernel

end MetriEngine.Foundation.Base64
