import MetriEngine.Foundation.FixedWidth

/-!
# Readers of byte strings

A reader takes what it needs from the front of a byte string, or fails. What a writer wrote
is read back whatever follows it, so readers compose as writers do.
-/
namespace MetriEngine.Foundation

variable {ε : Type} {α β : Type}

abbrev Reader (ε : Type) (α : Type) := StateT (List Byte) (Except ε) α

/-- The reader makes `a` of these bytes and leaves what follows. -/
def Reads (r : Reader ε α) (bytes : List Byte) (a : α) : Prop :=
  ∀ rest, r (bytes ++ rest) = .ok (a, rest)

theorem Reads.pure (a : α) : Reads (Pure.pure a : Reader ε α) [] a := fun _ => rfl

theorem Reads.bind {r : Reader ε α} {f : α → Reader ε β} {bytes bytes' : List Byte} {a : α} {b : β}
    (hr : Reads r bytes a) (hf : Reads (f a) bytes' b) : Reads (r >>= f) (bytes ++ bytes') b := by
  intro rest
  have hfirst := hr (bytes' ++ rest)
  rw [List.append_assoc]
  change (r (bytes ++ (bytes' ++ rest)) >>= fun p => f p.1 p.2) = _
  rw [hfirst]
  exact hf rest

theorem Reads.map {r : Reader ε α} {bytes : List Byte} {a : α} (f : α → β) (h : Reads r bytes a) :
    Reads (f <$> r) bytes (f a) := by
  intro rest
  change (r (bytes ++ rest) >>= fun p => Except.ok (f p.1, p.2)) = _
  rw [h rest]
  rfl

/-- A whole byte string. -/
theorem Reads.whole {r : Reader ε α} {bytes : List Byte} {a : α} (h : Reads r bytes a) :
    r bytes = .ok (a, []) := by
  have hrest := h []
  rwa [List.append_nil] at hrest

/-- Where two readers after each other succeed, so did the first. -/
theorem Reader.bind_eq_ok {r : Reader ε α} {f : α → Reader ε β} {bytes rest : List Byte} {b : β}
    (h : (r >>= f) bytes = .ok (b, rest)) :
    ∃ a mid, r bytes = .ok (a, mid) ∧ f a mid = .ok (b, rest) := by
  change (r bytes >>= fun p => f p.1 p.2) = _ at h
  cases hr : r bytes with
  | error err =>
    rw [hr] at h
    cases h
  | ok p =>
    rw [hr] at h
    exact ⟨p.1, p.2, rfl, h⟩

/-! ### Bytes and numbers -/

/-- The next `n` bytes. -/
def takeBytes (n : ℕ) (err : ε) : Reader ε (List Byte) := fun bytes =>
  if bytes.length < n then .error err else .ok (bytes.take n, bytes.drop n)

theorem reads_takeBytes {n : ℕ} (err : ε) {bytes : List Byte} (h : bytes.length = n) :
    Reads (takeBytes n err) bytes bytes := by
  intro rest
  subst h
  rw [takeBytes, if_neg (by simp), List.take_left, List.drop_left]

def takeByte (err : ε) : Reader ε Byte
  | [] => .error err
  | b :: bytes => .ok (b, bytes)

theorem reads_takeByte (err : ε) (b : Byte) : Reads (takeByte err) [b] b := fun _ => rfl

/-- The `n` low bytes of `x`, least significant first. -/
def leBytes (n x : ℕ) : List Byte := (beBytes n x).reverse

@[simp] theorem leBytes_length (n x : ℕ) : (leBytes n x).length = n := by simp [leBytes]

def readLe (n : ℕ) (err : ε) : Reader ε ℕ := (fun bytes => ofBeBytes bytes.reverse) <$> takeBytes n err

theorem reads_readLe {n x : ℕ} (err : ε) (h : x < 256 ^ n) : Reads (readLe n err) (leBytes n x) x := by
  have hread := (reads_takeBytes err (leBytes_length n x)).map fun bytes => ofBeBytes bytes.reverse
  rw [leBytes, List.reverse_reverse, ofBeBytes_beBytes h] at hread
  exact hread

/-! ### Lists -/

/-- One after the other, `count` of them. -/
def readMany (r : Reader ε α) : ℕ → Reader ε (List α)
  | 0 => Pure.pure []
  | count + 1 => do
    let a ← r
    let as ← readMany r count
    return a :: as

theorem reads_readMany {r : Reader ε α} {w : α → List Byte} (as : List α)
    (h : ∀ a ∈ as, Reads r (w a) a) : Reads (readMany r as.length) (as.flatMap w) as := by
  induction as with
  | nil => exact Reads.pure _
  | cons a as ih =>
    have hrest := ih fun b hb => h b (List.mem_cons_of_mem _ hb)
    have hreturn : Reads (Pure.pure (a :: as) : Reader ε (List α)) [] (a :: as) := Reads.pure _
    have hall := (h a List.mem_cons_self).bind (f := fun a' => do
      let as ← readMany r as.length
      return a' :: as) (hrest.bind (f := fun as' => Pure.pure (a :: as')) hreturn)
    rw [List.append_nil] at hall
    exact hall

theorem length_of_readMany {r : Reader ε α} {count : ℕ} {bytes rest : List Byte} {as : List α}
    (h : readMany r count bytes = .ok (as, rest)) : as.length = count := by
  induction count generalizing bytes as rest with
  | zero =>
    cases h
    rfl
  | succ count ih =>
    obtain ⟨a, mid, _, hmore⟩ := Reader.bind_eq_ok h
    obtain ⟨as', mid', hmany, hreturn⟩ := Reader.bind_eq_ok hmore
    cases hreturn
    rw [List.length_cons, ih hmany]

end MetriEngine.Foundation
