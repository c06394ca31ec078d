import MetriEngine.Foundation.Reader

/-!
# Readers that the machine can stop

A reader of a slice at an offset, as a program writes it with its own bounds checks: besides
an error of the program there is the fault of an index out of range, of a start beyond its
end, and of a sum that no machine word holds. A checked reader implements a reader of byte
strings when it gives the same value, leaves the offset before the same rest, fails with the
same error, and never faults.
-/
namespace MetriEngine.Foundation

variable {ε : Type} {α β : Type}

inductive Fault (ε : Type) where
  | panic
  | err (e : ε)
deriving DecidableEq

abbrev Checked (ε : Type) := Except (Fault ε)

/-- The result of a computation that cannot fault. -/
def ofExcept : Except ε α → Checked ε α
  | .error e => .error (.err e)
  | .ok a => .ok a

theorem ofExcept_ne_panic (r : Except ε α) : ofExcept r ≠ .error .panic := by
  cases r <;> simp [ofExcept]

theorem ok_bind (a : α) (f : α → Checked ε β) : ((.ok a : Checked ε α) >>= f) = f a := rfl

/-- `a + b` in a machine word of 64 bits. -/
def usizeAdd (a b : ℕ) : Checked ε ℕ := if a + b < 2 ^ 64 then .ok (a + b) else .error .panic

/-- `&bytes[start..stop]` -/
def slice (bytes : List Byte) (start stop : ℕ) : Checked ε (List Byte) :=
  if start ≤ stop ∧ stop ≤ bytes.length then .ok ((bytes.drop start).take (stop - start))
  else .error .panic

/-- `bytes[i]` -/
def byteAt (bytes : List Byte) (i : ℕ) : Checked ε Byte :=
  match bytes[i]? with
  | some b => .ok b
  | none => .error .panic

theorem usizeAdd_eq {a b : ℕ} (h : a + b < 2 ^ 64) : (usizeAdd a b : Checked ε ℕ) = .ok (a + b) :=
  if_pos h

theorem slice_eq {bytes : List Byte} {start stop : ℕ} (hle : start ≤ stop)
    (hlen : stop ≤ bytes.length) :
    (slice bytes start stop : Checked ε (List Byte)) =
      .ok ((bytes.drop start).take (stop - start)) := if_pos ⟨hle, hlen⟩

/-- A read that moves an offset. -/
abbrev Cursor (ε : Type) (α : Type) := StateT ℕ (Checked ε) α

/-- A checked reader of `bytes` that does what a reader of byte strings does from any offset
inside them. -/
def Implements (bytes : List Byte) (c : Cursor ε α) (r : Reader ε α) : Prop :=
  ∀ offset ≤ bytes.length,
    (∀ e, r (bytes.drop offset) = .error e → c offset = .error (.err e)) ∧
    (∀ a rest, r (bytes.drop offset) = .ok (a, rest) →
      ∃ offset' ≤ bytes.length, rest = bytes.drop offset' ∧ c offset = .ok (a, offset'))

namespace Implements
variable {bytes : List Byte}

theorem pure (a : α) : Implements bytes (Pure.pure a : Cursor ε α) (Pure.pure a) := by
  intro offset hoffset
  constructor
  · intro e h
    cases h
  · intro a' rest h
    cases h
    exact ⟨offset, hoffset, rfl, rfl⟩

theorem fail (e : ε) :
    Implements bytes (throw (.err e) : Cursor ε α) (throw e) := by
  intro offset _
  constructor
  · intro e' h
    cases h
    rfl
  · intro a rest h
    cases h

/-- Where the reader only gives values of one kind, the next read is of these alone. -/
theorem bind_of {P : α → Prop} {c : Cursor ε α} {r : Reader ε α} {d : α → Cursor ε β}
    {f : α → Reader ε β} (hc : Implements bytes c r)
    (hP : ∀ text a rest, r text = .ok (a, rest) → P a)
    (hd : ∀ a, P a → Implements bytes (d a) (f a)) : Implements bytes (c >>= d) (r >>= f) := by
  intro offset hoffset
  obtain ⟨herr, hok⟩ := hc offset hoffset
  change (∀ e, (r (bytes.drop offset) >>= fun p => f p.1 p.2) = _ →
      (c offset >>= fun p => d p.1 p.2) = _) ∧
    (∀ b rest, (r (bytes.drop offset) >>= fun p => f p.1 p.2) = _ →
      ∃ offset' ≤ bytes.length, _ ∧ (c offset >>= fun p => d p.1 p.2) = _)
  cases hr : r (bytes.drop offset) with
  | error e =>
    rw [herr e hr]
    constructor
    · intro e' h
      cases h
      rfl
    · intro b rest h
      cases h
  | ok p =>
    obtain ⟨a, rest⟩ := p
    obtain ⟨offset', hoffset', rfl, hcok⟩ := hok a rest hr
    rw [hcok]
    exact hd a (hP _ a _ hr) offset' hoffset'

theorem bind {c : Cursor ε α} {r : Reader ε α} {d : α → Cursor ε β} {f : α → Reader ε β}
    (hc : Implements bytes c r) (hd : ∀ a, Implements bytes (d a) (f a)) :
    Implements bytes (c >>= d) (r >>= f) :=
  hc.bind_of (fun _ _ _ _ => trivial) fun a _ => hd a

theorem map {c : Cursor ε α} {r : Reader ε α} (f : α → β) (h : Implements bytes c r) :
    Implements bytes (f <$> c) (f <$> r) := by
  rw [map_eq_pure_bind, map_eq_pure_bind]
  exact h.bind fun a => pure (f a)

/-- From the front of the bytes the two agree, and the machine does not stop. -/
theorem whole {c : Cursor ε α} {r : Reader ε α} (h : Implements bytes c r) :
    Prod.fst <$> c 0 = ofExcept (Prod.fst <$> r bytes) := by
  obtain ⟨herr, hok⟩ := h 0 (Nat.zero_le _)
  rw [List.drop_zero] at herr hok
  cases hr : r bytes with
  | error e =>
    rw [herr e hr]
    rfl
  | ok p =>
    obtain ⟨offset', _, _, hc⟩ := hok p.1 p.2 hr
    rw [hc]
    rfl

end Implements

/-! ### Bytes and lists -/

section Reads
variable (bytes : List Byte)

/-- `n` bytes without a check. -/
def cursorSlice (n : ℕ) : Cursor ε (List Byte) := fun offset => do
  let stop ← usizeAdd offset n
  let out ← slice bytes offset stop
  return (out, stop)

/-- A check that `n` bytes are there. -/
def cursorGuard (n : ℕ) (e : ε) : Cursor ε Unit := fun offset => do
  let stop ← usizeAdd offset n
  if bytes.length < stop then .error (.err e) else .ok ((), offset)

/-- One byte without a check. -/
def cursorIndex : Cursor ε Byte := fun offset => do
  let b ← byteAt bytes offset
  let stop ← usizeAdd offset 1
  return (b, stop)

/-- `n` bytes after a check that they are there. -/
def cursorTake (n : ℕ) (e : ε) : Cursor ε (List Byte) := do
  cursorGuard bytes n e
  cursorSlice bytes n

/-- One byte after a check that the offset is inside the bytes. -/
def cursorByte (e : ε) : Cursor ε Byte := fun offset =>
  if bytes.length ≤ offset then .error (.err e) else cursorIndex bytes offset

def cursorLe (n : ℕ) (e : ε) : Cursor ε ℕ := (fun le => ofBeBytes le.reverse) <$> cursorTake bytes n e

end Reads

def cursorMany (c : Cursor ε α) : ℕ → Cursor ε (List α)
  | 0 => Pure.pure []
  | count + 1 => do
    let a ← c
    let as ← cursorMany c count
    return a :: as

section Rules
variable {bytes : List Byte} (hbytes : bytes.length < 2 ^ 63)
include hbytes

theorem cursorGuard_eq {n offset : ℕ} (hn : n < 2 ^ 63) (hoffset : offset ≤ bytes.length) (e : ε) :
    cursorGuard bytes n e offset =
      if bytes.length < offset + n then .error (.err e) else .ok ((), offset) := by
  unfold cursorGuard
  rw [usizeAdd_eq (by omega)]
  rfl

theorem cursorSlice_eq {n offset : ℕ} (h : offset + n ≤ bytes.length) :
    (cursorSlice bytes n offset : Checked ε (List Byte × ℕ)) =
      .ok ((bytes.drop offset).take n, offset + n) := by
  unfold cursorSlice
  rw [usizeAdd_eq (by omega)]
  change (slice bytes offset (offset + n) >>= fun out => _) = _
  rw [slice_eq (by omega) h, Nat.add_sub_cancel_left]
  rfl

omit hbytes in
theorem takeBytes_drop {n offset : ℕ} (hoffset : offset ≤ bytes.length) (e : ε) :
    takeBytes n e (bytes.drop offset) =
      if bytes.length < offset + n then .error e
      else .ok ((bytes.drop offset).take n, bytes.drop (offset + n)) := by
  rw [takeBytes, List.length_drop, List.drop_drop]
  by_cases hshort : bytes.length < offset + n
  · rw [if_pos hshort, if_pos (by omega)]
  · rw [if_neg hshort, if_neg (by omega)]

theorem implements_take {n : ℕ} (hn : n < 2 ^ 63) (e : ε) :
    Implements bytes (cursorTake bytes n e) (takeBytes n e) := by
  intro offset hoffset
  have hrun : cursorTake bytes n e offset =
      (cursorGuard bytes n e offset >>= fun p => cursorSlice bytes n p.2) := rfl
  rw [hrun, cursorGuard_eq hbytes hn hoffset, takeBytes_drop hoffset]
  by_cases hshort : bytes.length < offset + n
  · rw [if_pos hshort, if_pos hshort]
    constructor
    · intro e' h
      cases h
      rfl
    · intro a rest h
      cases h
  · rw [if_neg hshort, if_neg hshort]
    constructor
    · intro e' h
      cases h
    · intro a rest h
      cases h
      exact ⟨offset + n, by omega, rfl, cursorSlice_eq hbytes (by omega)⟩

omit hbytes in
theorem foldl_lt (bytes : List Byte) (acc : ℕ) :
    bytes.foldl (fun x b => x * 256 + b.val) acc < (acc + 1) * 256 ^ bytes.length := by
  induction bytes generalizing acc with
  | nil => simp
  | cons b bytes ih =>
    have hb := b.isLt
    rw [List.foldl_cons, List.length_cons, pow_succ']
    calc bytes.foldl (fun x b => x * 256 + b.val) (acc * 256 + b.val)
        < (acc * 256 + b.val + 1) * 256 ^ bytes.length := ih _
      _ ≤ ((acc + 1) * 256) * 256 ^ bytes.length := by gcongr; omega
      _ = (acc + 1) * (256 * 256 ^ bytes.length) := by ring

omit hbytes in
/-- `n` bytes hold no number of `256 ^ n` or more. -/
theorem readLe_lt {n x : ℕ} {e : ε} {text rest : List Byte} (h : readLe n e text = .ok (x, rest)) :
    x < 256 ^ n := by
  change (takeBytes n e text >>= fun p => Except.ok (ofBeBytes p.1.reverse, p.2)) = _ at h
  unfold takeBytes at h
  split_ifs at h with hshort
  · cases h
  · cases h
    have hlt := foldl_lt (text.take n).reverse 0
    rw [List.length_reverse, List.length_take, min_eq_left (by omega), Nat.zero_add, Nat.one_mul]
      at hlt
    exact hlt

theorem implements_le {n : ℕ} (hn : n < 2 ^ 63) (e : ε) :
    Implements bytes (cursorLe bytes n e) (readLe n e) := (implements_take hbytes hn e).map _

theorem cursorIndex_eq {offset : ℕ} (h : offset < bytes.length) :
    (cursorIndex bytes offset : Checked ε (Byte × ℕ)) = .ok (bytes[offset], offset + 1) := by
  unfold cursorIndex
  rw [byteAt, List.getElem?_eq_getElem h, usizeAdd_eq (by omega)]
  rfl

theorem implements_byte (e : ε) : Implements bytes (cursorByte bytes e) (takeByte e) := by
  intro offset hoffset
  unfold cursorByte
  by_cases hend : bytes.length ≤ offset
  · rw [if_pos hend, List.drop_eq_nil_of_le hend]
    constructor
    · intro e' h
      cases h
      rfl
    · intro a rest h
      cases h
  · have hlt : offset < bytes.length := by omega
    rw [if_neg hend, cursorIndex_eq hbytes hlt, List.drop_eq_getElem_cons hlt]
    constructor
    · intro e' h
      cases h
    · intro a rest h
      cases h
      exact ⟨offset + 1, by omega, rfl, rfl⟩

/-- Two slices after one check for both. -/
theorem implements_guarded {n m : ℕ} (hnm : n + m < 2 ^ 63) (e : ε)
    {d : List Byte → List Byte → Cursor ε α} {f : List Byte → List Byte → Reader ε α}
    (hd : ∀ a b, Implements bytes (d a b) (f a b)) :
    Implements bytes
      (do
        cursorGuard bytes (n + m) e
        let a ← cursorSlice bytes n
        let b ← cursorSlice bytes m
        d a b)
      (do
        let a ← takeBytes n e
        let b ← takeBytes m e
        f a b) := by
  intro offset hoffset
  change (∀ e', (takeBytes n e (bytes.drop offset) >>= fun p =>
      takeBytes m e p.2 >>= fun q => f p.1 q.1 q.2) = _ →
      (cursorGuard bytes (n + m) e offset >>= fun p => cursorSlice bytes n p.2 >>= fun q =>
        cursorSlice bytes m q.2 >>= fun q' => d q.1 q'.1 q'.2) = _) ∧
    (∀ b rest, (takeBytes n e (bytes.drop offset) >>= fun p =>
      takeBytes m e p.2 >>= fun q => f p.1 q.1 q.2) = _ →
      ∃ offset' ≤ bytes.length, _ ∧ (cursorGuard bytes (n + m) e offset >>= fun p =>
        cursorSlice bytes n p.2 >>= fun q =>
        cursorSlice bytes m q.2 >>= fun q' => d q.1 q'.1 q'.2) = _)
  rw [cursorGuard_eq hbytes hnm hoffset, takeBytes_drop hoffset]
  by_cases hshort : bytes.length < offset + (n + m)
  · -- the check fails where one of the two reads does
    rw [if_pos hshort]
    have hread : (takeBytes n e (bytes.drop offset) >>= fun p =>
        takeBytes m e p.2 >>= fun q => f p.1 q.1 q.2) = .error e := by
      rw [takeBytes_drop hoffset]
      by_cases hfirst : bytes.length < offset + n
      · rw [if_pos hfirst]
        rfl
      · rw [if_neg hfirst]
        change (takeBytes m e (bytes.drop (offset + n)) >>= _) = _
        rw [takeBytes_drop (by omega), if_pos (by omega)]
        rfl
    rw [← takeBytes_drop hoffset, hread]
    constructor
    · intro e' h
      cases h
      rfl
    · intro b rest h
      cases h
  · rw [if_neg hshort, if_neg (by omega)]
    change (∀ e', (takeBytes m e (bytes.drop (offset + n)) >>= fun q => f _ q.1 q.2) = _ →
        (cursorSlice bytes n offset >>= fun q =>
          cursorSlice bytes m q.2 >>= fun q' => d q.1 q'.1 q'.2) = _) ∧
      (∀ b rest, (takeBytes m e (bytes.drop (offset + n)) >>= fun q => f _ q.1 q.2) = _ →
        ∃ offset' ≤ bytes.length, _ ∧ (cursorSlice bytes n offset >>= fun q =>
          cursorSlice bytes m q.2 >>= fun q' => d q.1 q'.1 q'.2) = _)
    rw [takeBytes_drop (by omega), if_neg (by omega), cursorSlice_eq hbytes (by omega)]
    change (∀ e', f _ _ (bytes.drop (offset + n + m)) = _ →
        (cursorSlice bytes m (offset + n) >>= fun q' => d _ q'.1 q'.2) = _) ∧
      (∀ b rest, f _ _ (bytes.drop (offset + n + m)) = _ →
        ∃ offset' ≤ bytes.length, _ ∧ (cursorSlice bytes m (offset + n) >>= fun q' =>
          d _ q'.1 q'.2) = _)
    rw [cursorSlice_eq hbytes (by omega)]
    exact hd _ _ (offset + n + m) (by omega)

/-- Three bytes, each by its index, after one check for all. -/
theorem implements_three (e : ε) {d : Byte → Byte → Byte → Cursor ε α}
    {f : List Byte → Reader ε α} (hd : ∀ a b c, Implements bytes (d a b c) (f [a, b, c])) :
    Implements bytes
      (do
        cursorGuard bytes 3 e
        let a ← cursorIndex bytes
        let b ← cursorIndex bytes
        let c ← cursorIndex bytes
        d a b c)
      (takeBytes 3 e >>= f) := by
  intro offset hoffset
  change (∀ e', (takeBytes 3 e (bytes.drop offset) >>= fun p => f p.1 p.2) = _ →
      (cursorGuard bytes 3 e offset >>= fun p => cursorIndex bytes p.2 >>= fun a =>
        cursorIndex bytes a.2 >>= fun b => cursorIndex bytes b.2 >>= fun c =>
          d a.1 b.1 c.1 c.2) = _) ∧
    (∀ b rest, (takeBytes 3 e (bytes.drop offset) >>= fun p => f p.1 p.2) = _ →
      ∃ offset' ≤ bytes.length, _ ∧ (cursorGuard bytes 3 e offset >>= fun p =>
        cursorIndex bytes p.2 >>= fun a => cursorIndex bytes a.2 >>= fun b =>
          cursorIndex bytes b.2 >>= fun c => d a.1 b.1 c.1 c.2) = _)
  rw [cursorGuard_eq hbytes (by norm_num) hoffset, takeBytes_drop hoffset]
  by_cases hshort : bytes.length < offset + 3
  · rw [if_pos hshort, if_pos hshort]
    constructor
    · intro e' h
      cases h
      rfl
    · intro b rest h
      cases h
  · have hthree : (bytes.drop offset).take 3 =
        [bytes[offset], bytes[offset + 1], bytes[offset + 2]] := by
      rw [List.drop_eq_getElem_cons (by omega), List.drop_eq_getElem_cons (by omega),
        List.drop_eq_getElem_cons (by omega)]
      rfl
    have hrun : ((.ok ((), offset) : Checked ε (Unit × ℕ)) >>= fun p =>
        cursorIndex bytes p.2 >>= fun a => cursorIndex bytes a.2 >>= fun b =>
          cursorIndex bytes b.2 >>= fun c => d a.1 b.1 c.1 c.2) =
        d bytes[offset] bytes[offset + 1] bytes[offset + 2] (offset + 3) := by
      rw [ok_bind]
      dsimp only
      rw [cursorIndex_eq hbytes (by omega), ok_bind]
      dsimp only
      rw [cursorIndex_eq hbytes (by omega), ok_bind]
      dsimp only
      rw [cursorIndex_eq hbytes (by omega), ok_bind]
    rw [if_neg hshort, if_neg hshort, hthree, hrun]
    exact hd _ _ _ (offset + 3) (by omega)

end Rules

theorem implements_many {bytes : List Byte} {c : Cursor ε α} {r : Reader ε α}
    (h : Implements bytes c r) (count : ℕ) :
    Implements bytes (cursorMany c count) (readMany r count) := by
  induction count with
  | zero => exact Implements.pure []
  | succ count ih => exact h.bind fun a => ih.bind fun as => Implements.pure (a :: as)

/-! ### Steps over a list

A step that panics in some states, and otherwise does what a pure step does, runs over a list
without a panic exactly where the pure steps never lead to such a state. -/

section Fold
variable {σ τ : Type} (bad : σ → τ → Prop) [∀ s t, Decidable (bad s t)]
variable (step : σ → τ → Except ε σ)

def guardedStep (s : σ) (t : τ) : Checked ε σ :=
  if bad s t then .error .panic else ofExcept (step s t)

/-- No step of the list starts in a state that it panics in. -/
def NeverBad (s : σ) (l : List τ) : Prop :=
  ∀ before t after s', l = before ++ t :: after → before.foldlM step s = .ok s' → ¬ bad s' t

variable {bad} {step}

omit [∀ s t, Decidable (bad s t)] in
theorem neverBad_cons {s : σ} {t : τ} {l : List τ} :
    NeverBad bad step s (t :: l) ↔ ¬ bad s t ∧ ∀ s', step s t = .ok s' → NeverBad bad step s' l := by
  constructor
  · intro h
    refine ⟨h [] t l s rfl rfl, ?_⟩
    intro s' hstep before u after s'' hl hrun
    apply h (t :: before) u after s'' (congrArg (t :: ·) hl)
    rw [List.foldlM_cons, hstep]
    exact hrun
  · rintro ⟨hfirst, hrest⟩ before u after s'' hl hrun
    cases before with
    | nil =>
      obtain ⟨rfl, rfl⟩ := List.cons.inj hl
      cases hrun
      exact hfirst
    | cons v before =>
      obtain ⟨rfl, rfl⟩ := List.cons.inj hl
      rw [List.foldlM_cons] at hrun
      cases hstep : step s t with
      | error e =>
        rw [hstep] at hrun
        cases hrun
      | ok s' =>
        rw [hstep] at hrun
        exact hrest s' hstep before u after s'' rfl hrun

/-- Without such a state the run is the pure one. -/
theorem foldlM_guardedStep_eq {s : σ} {l : List τ} (h : NeverBad bad step s l) :
    l.foldlM (guardedStep bad step) s = ofExcept (l.foldlM step s) := by
  induction l generalizing s with
  | nil => rfl
  | cons t l ih =>
    obtain ⟨hfirst, hrest⟩ := neverBad_cons.mp h
    rw [List.foldlM_cons, List.foldlM_cons, guardedStep, if_neg hfirst]
    cases hstep : step s t with
    | error e => rfl
    | ok s' => exact ih (hrest s' hstep)

theorem foldlM_guardedStep_ne_panic_iff {s : σ} {l : List τ} :
    l.foldlM (guardedStep bad step) s ≠ .error .panic ↔ NeverBad bad step s l := by
  constructor
  · induction l generalizing s with
    | nil =>
      intro _ before t after s' hl
      exact absurd hl.symm (List.append_ne_nil_of_right_ne_nil _ (List.cons_ne_nil _ _))
    | cons t l ih =>
      intro h
      rw [List.foldlM_cons] at h
      by_cases hbad : bad s t
      · rw [guardedStep, if_pos hbad] at h
        exact absurd rfl h
      · rw [guardedStep, if_neg hbad] at h
        apply neverBad_cons.mpr
        refine ⟨hbad, ?_⟩
        intro s' hstep
        rw [hstep] at h
        exact ih h
  · intro h
    rw [foldlM_guardedStep_eq h]
    exact ofExcept_ne_panic _

end Fold
end MetriEngine.Foundation
