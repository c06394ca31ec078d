import Mathlib

/-!
# Logs of revisions

A log of assertions and retractions, the oldest first. Its last revision tells what is
current. A reader that sees only a part of the log takes the last revision of that part
for the last one; it is right where every assertion was taken back under its own key, or
its key is still current.
-/
namespace MetriEngine.Foundation

universe u v w
variable {τ : Type u} {α : Type v} {κ : Type w}

structure Revision (τ : Type u) (α : Type v) where
  stamp : τ
  op : Bool
  val : α

namespace Revision

/-! ### What is current -/

/-- The last revision, if it asserts something. -/
def current (log : List (Revision τ α)) : Option (Revision τ α) :=
  log.getLast?.filter Revision.op

/-- What a reader takes for current that sees the values with `p` only. -/
def currentWhere (p : α → Bool) (log : List (Revision τ α)) : Option (Revision τ α) :=
  current (log.filter fun r => p r.val)

/-- The revisions of one stamp: first what is retracted, then what is asserted. -/
def revise (stamp : τ) (retracted asserted : Option α) : List (Revision τ α) :=
  (retracted.map fun v => ⟨stamp, false, v⟩).toList ++
    (asserted.map fun v => ⟨stamp, true, v⟩).toList

@[simp] theorem current_nil : current ([] : List (Revision τ α)) = none := rfl

theorem current_concat (log : List (Revision τ α)) (r : Revision τ α) :
    current (log ++ [r]) = if r.op then some r else none := by
  rw [current, List.getLast?_concat, Option.filter_some]

/-- An assertion replaces what was current, a retraction alone takes it away. -/
theorem current_append_revise (log : List (Revision τ α)) (stamp : τ) (retracted asserted : Option α) :
    current (log ++ revise stamp retracted asserted) =
      (asserted.map fun v => ⟨stamp, true, v⟩).or
        (if retracted.isSome then none else current log) := by
  cases retracted with
  | none =>
    cases asserted with
    | none => simp [revise]
    | some v => simp [revise, current_concat]
  | some u =>
    cases asserted with
    | none => simp [revise, current_concat]
    | some v =>
      have hlast : log ++ revise stamp (some u) (some v) =
          (log ++ [⟨stamp, false, u⟩]) ++ [⟨stamp, true, v⟩] := by
        simp [revise]
      rw [hlast, current_concat]
      rfl

theorem filter_revise (p : α → Bool) (stamp : τ) (retracted asserted : Option α) :
    (revise stamp retracted asserted).filter (fun r => p r.val) =
      revise stamp (retracted.filter p) (asserted.filter p) := by
  have hpart (op : Bool) (v : Option α) :
      ((v.map fun v => (⟨stamp, op, v⟩ : Revision τ α)).toList.filter fun r => p r.val) =
        ((v.filter p).map fun v => (⟨stamp, op, v⟩ : Revision τ α)).toList := by
    cases v with
    | none => rfl
    | some v => by_cases hp : p v = true <;> simp [Option.filter_some, hp]
  rw [revise, List.filter_append, hpart, hpart, revise]

/-- Revisions that a reader does not see change nothing for it. -/
theorem currentWhere_append_revise (p : α → Bool) (log : List (Revision τ α)) (stamp : τ)
    (retracted asserted : Option α) :
    currentWhere p (log ++ revise stamp retracted asserted) =
      ((asserted.filter p).map fun v => ⟨stamp, true, v⟩).or
        (if (retracted.filter p).isSome then none else currentWhere p log) := by
  rw [currentWhere, List.filter_append, filter_revise, current_append_revise]
  rfl

/-! ### Closed logs -/

/-- Each stamp that finds a current value retracts or asserts its key. -/
inductive Closed (key : α → κ) : List (Revision τ α) → Prop
  | nil : Closed key []
  | revise {log : List (Revision τ α)} (h : Closed key log) (stamp : τ)
      (retracted asserted : Option α)
      (hcovers : ∀ c, current log = some c → retracted = none ∧ asserted = none ∨
        (∃ v, retracted = some v ∧ key v = key c.val) ∨
          ∃ v, asserted = some v ∧ key v = key c.val) :
      Closed key (log ++ revise stamp retracted asserted)

/-- On a closed log, a reader that sees values by their keys is right. -/
theorem Closed.currentWhere {key : α → κ} {log : List (Revision τ α)} (h : Closed key log)
    {p : α → Bool} (hp : ∀ u v, key u = key v → p u = p v) :
    currentWhere p log = (current log).filter fun r => p r.val := by
  induction h with
  | nil => rfl
  | @revise log h stamp retracted asserted hcovers ih =>
    rw [currentWhere_append_revise, current_append_revise, ih]
    cases hlog : current log with
    | none =>
      cases asserted with
      | none => simp
      | some v => by_cases hv : p v = true <;> simp [Option.filter_some, hv]
    | some c =>
      by_cases hc : p c.val = true
      · -- what is seen of the stamp covers what was seen as current
        rcases hcovers c hlog with ⟨rfl, rfl⟩ | ⟨u, rfl, hu⟩ | ⟨v, rfl, hv⟩
        · simp
        · have hpu : p u = true := (hp _ _ hu).trans hc
          cases asserted with
          | none => simp [Option.filter_some, hpu]
          | some v => by_cases hv : p v = true <;> simp [Option.filter_some, hv, hpu]
        · have hpv : p v = true := (hp _ _ hv).trans hc
          simp [Option.filter_some, hpv]
      · cases asserted with
        | none => cases retracted <;> simp [Option.filter_some, hc]
        | some v => by_cases hv : p v = true <;> simp [Option.filter_some, hv, hc]

/-! ### Ascending logs -/

section Ascending
variable [LinearOrder τ]

/-- In the order of stamps; of one stamp, the retraction comes first. -/
def Before (r s : Revision τ α) : Prop :=
  r.stamp < s.stamp ∨ r.stamp = s.stamp ∧ r.op < s.op

theorem Before.asymm {r s : Revision τ α} (h : Before r s) : ¬ Before s r := by
  rintro (hlt | ⟨heq, hlt⟩) <;> rcases h with hlt' | ⟨heq', hlt'⟩
  · exact lt_asymm hlt hlt'
  · exact absurd hlt (by rw [heq']; exact lt_irrefl _)
  · exact absurd hlt' (by rw [heq]; exact lt_irrefl _)
  · exact lt_asymm hlt hlt'

def Ascending (log : List (Revision τ α)) : Prop := log.Pairwise Before

/-- What is current is older than a revision that comes after it. -/
theorem Ascending.current_lt {log : List (Revision τ α)} {r c : Revision τ α}
    (h : Ascending (log ++ [r])) (hc : current log = some c) : c.stamp < r.stamp := by
  obtain ⟨hlast, hop⟩ := Option.filter_eq_some_iff.mp hc
  have hbefore := (List.pairwise_append.mp h).2.2 c (List.mem_of_getLast? hlast) r
    (List.mem_singleton_self r)
  rcases hbefore with hlt | ⟨_, hlt⟩
  · exact hlt
  · rw [hop] at hlt
    exact absurd hlt (by cases r.op <;> decide)

/-- The last revision of an ascending log is the only one that no other comes after. -/
theorem Ascending.getLast?_iff {log : List (Revision τ α)} (h : Ascending log)
    {r : Revision τ α} : log.getLast? = some r ↔ r ∈ log ∧ ∀ s ∈ log, s = r ∨ Before s r := by
  constructor
  · intro hlast
    obtain ⟨earlier, rfl⟩ := List.getLast?_eq_some_iff.mp hlast
    refine ⟨List.mem_append_right _ (List.mem_singleton_self r), ?_⟩
    intro s hs
    rcases List.mem_append.mp hs with hs | hs
    · exact Or.inr ((List.pairwise_append.mp h).2.2 s hs r (List.mem_singleton_self r))
    · exact Or.inl (List.mem_singleton.mp hs)
  · rintro ⟨hr, hlatest⟩
    cases hlast : log.getLast? with
    | none =>
      rw [List.getLast?_eq_none_iff.mp hlast] at hr
      cases hr
    | some s =>
      obtain ⟨earlier, rfl⟩ := List.getLast?_eq_some_iff.mp hlast
      rcases List.mem_append.mp hr with hearlier | hsingle
      · have hrs := (List.pairwise_append.mp h).2.2 r hearlier s (List.mem_singleton_self s)
        rcases hlatest s (List.mem_append_right _ (List.mem_singleton_self s)) with heq | hsr
        · rw [heq]
        · exact absurd hsr hrs.asymm
      · rw [List.mem_singleton.mp hsingle]

end Ascending
end Revision
end MetriEngine.Foundation
