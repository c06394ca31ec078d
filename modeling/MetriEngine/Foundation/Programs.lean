import Mathlib

/-!
# Programs that make calls

A program makes a call and goes on with its answer, or it is done. The programs of several threads
run on one world, call by call, in any order.

What a thread has seen is kept in a ghost state beside it. A contract says which calls a ghost state
permits and what answers may be relied on; a program is proved to keep it thread by thread. Where each
thread accounts for what it holds of a quantity of the world, the threads together account for the
whole of it, however they are interleaved.
-/
namespace MetriEngine.Foundation

universe u v w x y z

inductive Program (Call : Type u) (Answer : Call → Type v) (α : Type w)
  | done (result : α)
  | call (c : Call) (next : Answer c → Program Call Answer α)

namespace Program
variable {Call : Type u} {Answer : Call → Type v} {α β : Type w}

def bind : Program Call Answer α → (α → Program Call Answer β) → Program Call Answer β
  | done result, next => next result
  | call c rest, next => call c fun answer => (rest answer).bind next

@[simp] theorem bind_done (result : α) (next : α → Program Call Answer β) :
    (done result).bind next = next result := rfl

@[simp] theorem bind_call (c : Call) (rest : Answer c → Program Call Answer α)
    (next : α → Program Call Answer β) :
    (call c rest).bind next = call c fun answer => (rest answer).bind next := rfl

/-! ### Contracts -/

/-- Which calls a ghost state permits, what their answers satisfy, and what is seen of them. -/
structure Contract (Call : Type u) (Answer : Call → Type v) (Ghost : Type x) where
  invariant : Ghost → Prop
  permits : Ghost → Call → Prop
  promises : (c : Call) → Answer c → Prop
  observe : Ghost → (c : Call) → Answer c → Ghost

variable {Ghost : Type x} {k : Contract Call Answer Ghost}

/-- From a ghost state a program keeps the contract, and its end satisfies `Q`. -/
def Keeps (k : Contract Call Answer Ghost) (Q : Ghost → α → Prop) :
    Ghost → Program Call Answer α → Prop
  | s, done result => k.invariant s ∧ Q s result
  | s, call c next => k.invariant s ∧ k.permits s c ∧
    ∀ answer, k.promises c answer → Keeps k Q (k.observe s c answer) (next answer)

variable {Q : Ghost → α → Prop} {R : Ghost → β → Prop} {s : Ghost}

theorem Keeps.invariant {p : Program Call Answer α} (h : Keeps k Q s p) : k.invariant s := by
  cases p with
  | done result => exact h.1
  | call c next => exact h.1

theorem Keeps.mono {Q' : Ghost → α → Prop} {p : Program Call Answer α} (h : Keeps k Q s p)
    (hQ : ∀ t result, k.invariant t → Q t result → Q' t result) : Keeps k Q' s p := by
  induction p generalizing s with
  | done result => exact ⟨h.1, hQ _ _ h.1 h.2⟩
  | call c next ih =>
    obtain ⟨hinv, hpermits, hnext⟩ := h
    exact ⟨hinv, hpermits, fun answer hanswer => ih answer (hnext answer hanswer)⟩

/-- A program goes on from the end of another. -/
theorem Keeps.bind {p : Program Call Answer α} {next : α → Program Call Answer β}
    (h : Keeps k Q s p)
    (hnext : ∀ t result, k.invariant t → Q t result → Keeps k R t (next result)) :
    Keeps k R s (p.bind next) := by
  induction p generalizing s with
  | done result => exact hnext _ _ h.1 h.2
  | call c rest ih =>
    obtain ⟨hinv, hpermits, hrest⟩ := h
    exact ⟨hinv, hpermits, fun answer hanswer => ih answer (hrest answer hanswer)⟩

end Program

/-! ### Threads on one world -/

/-- The world, the program that is left of each thread, and what the thread has seen. -/
structure Pool (Call : Type u) (Answer : Call → Type v) (α : Type w) (Ghost : Type x)
    (World : Type y) (Thread : Type z) where
  world : World
  threads : Thread → Program Call Answer α
  seen : Thread → Ghost

namespace Pool
open Program
variable {Call : Type u} {Answer : Call → Type v} {α : Type w} {Ghost : Type x} {World : Type y}
  {Thread : Type z}

/-- A call moves the quantity by what it moves the part that its thread holds. -/
structure Accounts (k : Contract Call Answer Ghost)
    (perform : World → (c : Call) → Answer c → World → Prop) (other : World → World → Prop)
    (sound : World → Prop) (quantity : World → ℤ) (held : Ghost → ℤ) (base : ℤ) : Prop where
  nonneg : ∀ s, k.invariant s → 0 ≤ held s
  promises : ∀ {w c answer after}, perform w c answer after → k.promises c answer
  sound_call : ∀ {w c answer after}, perform w c answer after → sound w → sound after
  sound_other : ∀ {w after}, other w after → sound w → sound after
  call : ∀ {w s c answer after}, perform w c answer after → sound w → k.invariant s →
    k.permits s c → base + held s ≤ quantity w →
    quantity after = quantity w + (held (k.observe s c answer) - held s)
  other : ∀ {w after}, other w after → quantity after = quantity w

variable [Fintype Thread] {k : Contract Call Answer Ghost} {Q : Thread → Ghost → α → Prop}
  {perform : World → (c : Call) → Answer c → World → Prop} {other : World → World → Prop}
  {sound : World → Prop} {quantity : World → ℤ} {held : Ghost → ℤ} {base : ℤ}

/-- The parts of all threads make up the quantity, and each thread keeps its contract. -/
structure Balanced (k : Contract Call Answer Ghost) (Q : Thread → Ghost → α → Prop)
    (sound : World → Prop) (quantity : World → ℤ) (held : Ghost → ℤ) (base : ℤ)
    (p : Pool Call Answer α Ghost World Thread) : Prop where
  sound : sound p.world
  quantity : quantity p.world = base + ∑ i, held (p.seen i)
  keeps : ∀ i, Keeps k (Q i) (p.seen i) (p.threads i)

/-- What a thread holds is a part of the whole. -/
theorem Balanced.held_le (hacc : Accounts k perform other sound quantity held base)
    {p : Pool Call Answer α Ghost World Thread}
    (h : Balanced k Q sound quantity held base p) (i : Thread) :
    base + held (p.seen i) ≤ quantity p.world := by
  have hpart : held (p.seen i) ≤ ∑ j, held (p.seen j) :=
    Finset.single_le_sum (f := fun j => held (p.seen j))
      (fun j _ => hacc.nonneg _ (h.keeps j).invariant) (Finset.mem_univ i)
  rw [h.quantity]
  omega

/-! ### Interleavings -/

variable [DecidableEq Thread]

/-- A thread makes its next call, or something else happens to the world. -/
inductive Step (k : Contract Call Answer Ghost)
    (perform : World → (c : Call) → Answer c → World → Prop) (other : World → World → Prop) :
    Pool Call Answer α Ghost World Thread → Pool Call Answer α Ghost World Thread → Prop
  | call {p : Pool Call Answer α Ghost World Thread} (i : Thread) {c : Call}
    {next : Answer c → Program Call Answer α} {answer : Answer c} {after : World}
    (hthread : p.threads i = .call c next) (hperform : perform p.world c answer after) :
    Step k perform other p
      ⟨after, Function.update p.threads i (next answer),
        Function.update p.seen i (k.observe (p.seen i) c answer)⟩
  | other {p : Pool Call Answer α Ghost World Thread} {after : World}
    (hother : other p.world after) : Step k perform other p { p with world := after }

/-- The pools that any order of steps leads to. -/
abbrev Runs (k : Contract Call Answer Ghost)
    (perform : World → (c : Call) → Answer c → World → Prop) (other : World → World → Prop) :
    Pool Call Answer α Ghost World Thread → Pool Call Answer α Ghost World Thread → Prop :=
  Relation.ReflTransGen (Step k perform other)

theorem sum_update (f : Thread → Ghost) (held : Ghost → ℤ) (i : Thread) (s : Ghost) :
    ∑ j, held (Function.update f i s j) = (∑ j, held (f j)) + (held s - held (f i)) := by
  have hmoved : ∑ j, (held (Function.update f i s j) - held (f j)) = held s - held (f i) := by
    rw [Finset.sum_eq_single i]
    · simp
    · intro j _ hj
      simp [hj]
    · simp
  rw [Finset.sum_sub_distrib] at hmoved
  omega

theorem Balanced.step (hacc : Accounts k perform other sound quantity held base)
    {p p' : Pool Call Answer α Ghost World Thread}
    (h : Balanced k Q sound quantity held base p) (hstep : Step k perform other p p') :
    Balanced k Q sound quantity held base p' := by
  cases hstep with
  | other hother =>
    exact ⟨hacc.sound_other hother h.sound, (hacc.other hother).trans h.quantity, h.keeps⟩
  | call i hthread hperform =>
    rename_i c next answer after
    have hkeeps := h.keeps i
    rw [hthread] at hkeeps
    obtain ⟨hinv, hpermits, hnext⟩ := hkeeps
    constructor
    · exact hacc.sound_call hperform h.sound
    · dsimp only
      rw [hacc.call hperform h.sound hinv hpermits (h.held_le hacc i), h.quantity, sum_update,
        add_assoc]
    · intro j
      by_cases hj : j = i
      · subst hj
        simpa using hnext answer (hacc.promises hperform)
      · simpa [hj] using h.keeps j

/-- However the threads are interleaved, what they hold makes up the quantity. -/
theorem Balanced.run (hacc : Accounts k perform other sound quantity held base)
    {p p' : Pool Call Answer α Ghost World Thread}
    (h : Balanced k Q sound quantity held base p) (hrun : Runs k perform other p p') :
    Balanced k Q sound quantity held base p' := by
  induction hrun with
  | refl => exact h
  | tail _ hstep ih => exact ih.step hacc hstep

end Pool
end MetriEngine.Foundation
