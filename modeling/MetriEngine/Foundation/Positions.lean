import MetriEngine.Foundation.OrdMap

/-!
# Position maps

A map from the members of a list to the places where they stand. It is kept beside a list
without repetitions that grows at the end and loses members anywhere: what stood behind a
lost member moves down by one, and its place is written again.
-/
namespace MetriEngine.Foundation

variable {κ : Type*} [LinearOrder κ]

/-- The map holds the place of every member of the list, and no other key. -/
def Tracks (keys : List κ) (places : OrdMap κ ℕ) : Prop :=
  ∀ k p, places.lookup k = some p ↔ keys[p]? = some k

/-- The members of a list with their places, from a place on. -/
def placesFrom (keys : List κ) (start : ℕ) : List (κ × ℕ) := keys.zipIdx.drop start

omit [LinearOrder κ] in
theorem mem_placesFrom {keys : List κ} {start p : ℕ} {k : κ} :
    (k, p) ∈ placesFrom keys start ↔ keys[p]? = some k ∧ start ≤ p := by
  rw [placesFrom, List.mem_drop_iff_getElem]
  constructor
  · intro h
    obtain ⟨i, hi, hik⟩ := h
    rw [List.length_zipIdx] at hi
    rw [List.getElem_zipIdx] at hik
    cases hik
    refine ⟨?_, by omega⟩
    rw [Nat.zero_add, List.getElem?_eq_getElem]
  · intro h
    obtain ⟨hk, hp⟩ := h
    obtain ⟨hlt, rfl⟩ := List.getElem?_eq_some_iff.mp hk
    refine ⟨p - start, by rw [List.length_zipIdx]; omega, ?_⟩
    rw [List.getElem_zipIdx]
    congr 1
    · congr 1
      omega
    · omega

namespace Tracks

theorem nodup {keys : List κ} {places : OrdMap κ ℕ} (h : Tracks keys places) : keys.Nodup := by
  refine List.nodup_iff_getElem?_ne_getElem?.mpr fun i j hij hj heq => ?_
  have hk : keys[j]? = some keys[j] := List.getElem?_eq_getElem hj
  have hi := (h _ i).mpr (heq.trans hk)
  have hj := (h _ j).mpr hk
  exact absurd (Option.some.inj (hi.symm.trans hj)) hij.ne

theorem empty : Tracks ([] : List κ) ∅ := by
  intro k p
  simp

theorem lookup_eq_none {keys : List κ} {places : OrdMap κ ℕ} (h : Tracks keys places) {k : κ} :
    places.lookup k = none ↔ k ∉ keys := by
  constructor
  · intro hnone hmem
    obtain ⟨p, hp, hk⟩ := List.mem_iff_getElem.mp hmem
    have := (h k p).mpr (hk ▸ List.getElem?_eq_getElem hp)
    rw [hnone] at this
    cases this
  · intro hmem
    cases hp : places.lookup k with
    | none => rfl
    | some p => exact absurd (List.mem_of_getElem? ((h k p).mp hp)) hmem

/-- There is one map of a list. -/
theorem unique {keys : List κ} {places places' : OrdMap κ ℕ} (h : Tracks keys places)
    (h' : Tracks keys places') : places = places' := by
  refine OrdMap.ext fun k => Option.ext fun p => ?_
  rw [h k p, h' k p]

/-- A new member stands at the end. -/
theorem append {keys : List κ} {places : OrdMap κ ℕ} (h : Tracks keys places) {k : κ}
    (hk : k ∉ keys) : Tracks (keys ++ [k]) (places.insert k keys.length) := by
  intro e p
  rw [OrdMap.lookup_insert, List.getElem?_append]
  by_cases he : e = k
  · subst he
    rw [if_pos rfl]
    constructor
    · intro hp
      cases hp
      simp
    · intro hp
      split_ifs at hp with hlt
      · exact absurd (List.mem_of_getElem? hp) hk
      · have hz : p - keys.length = 0 := by
          by_contra hne
          rw [List.getElem?_eq_none (by simp only [List.length_singleton]; omega)] at hp
          cases hp
        congr 1
        omega
  · rw [if_neg he, h e p]
    split_ifs with hlt
    · rfl
    · rw [List.getElem?_eq_none (by omega)]
      constructor
      · intro hp
        cases hp
      · intro hp
        have hmem := List.mem_of_getElem? hp
        exact absurd (List.mem_singleton.mp hmem) he

/-- Writing the places again from some place on, over a map that is right before it. -/
theorem insertList {keys : List κ} {places : OrdMap κ ℕ} (start : ℕ) (hnodup : keys.Nodup)
    (hbefore : ∀ k p, places.lookup k = some p → k ∉ keys.drop start → keys[p]? = some k)
    (hplaces : ∀ k p, keys[p]? = some k → p < start → places.lookup k = some p) :
    Tracks keys (places.insertList (placesFrom keys start)) := by
  have hfst : (placesFrom keys start).map Prod.fst = keys.drop start := by
    rw [placesFrom, List.map_drop, List.zipIdx_map_fst]
  have hkeys : ((placesFrom keys start).map Prod.fst).Nodup := by
    rw [hfst]
    exact hnodup.sublist (List.drop_sublist start keys)
  intro k p
  constructor
  · intro hp
    by_cases hk : k ∈ keys.drop start
    · rcases OrdMap.mem_of_lookup_insertList hp with hmem | hlookup
      · exact (mem_placesFrom.mp hmem).1
      · rw [← hfst, List.mem_map] at hk
        obtain ⟨⟨k', q⟩, hq, rfl⟩ := hk
        have := OrdMap.lookup_insertList_of_mem places hkeys hq
        rw [hp] at this
        cases this
        exact (mem_placesFrom.mp hq).1
    · rw [OrdMap.lookup_insertList_of_notMem _ (by rwa [hfst])] at hp
      exact hbefore k p hp hk
  · intro hk
    by_cases hp : start ≤ p
    · exact OrdMap.lookup_insertList_of_mem places hkeys (mem_placesFrom.mpr ⟨hk, hp⟩)
    · have hnot : k ∉ keys.drop start := by
        intro hmem
        obtain ⟨i, hi⟩ := List.mem_iff_getElem?.mp hmem
        rw [List.getElem?_drop] at hi
        obtain ⟨hlt, _⟩ := List.getElem?_eq_some_iff.mp hk
        have := (List.getElem?_inj hlt hnodup).mp (hk.trans hi.symm)
        omega
      rw [OrdMap.lookup_insertList_of_notMem _ (by rwa [hfst])]
      exact hplaces k p hk (by omega)

/-- The map written from nothing. -/
theorem rebuilt {keys : List κ} (h : keys.Nodup) :
    Tracks keys ((∅ : OrdMap κ ℕ).insertList (placesFrom keys 0)) :=
  insertList 0 h (fun _ _ hp => by simp at hp) (fun _ _ _ hp => absurd hp (Nat.not_lt_zero _))

/-- A member leaves: what stood behind it moves down by one. -/
theorem remove {keys : List κ} {places : OrdMap κ ℕ} (h : Tracks keys places) {k : κ} {pos : ℕ}
    (hk : places.lookup k = some pos) :
    Tracks (keys.eraseIdx pos)
      ((places.erase k).insertList (placesFrom (keys.eraseIdx pos) pos)) := by
  have hpos := (h k pos).mp hk
  have hnodup := h.nodup
  refine insertList pos (hnodup.eraseIdx pos) ?_ ?_
  · intro e p hp hdrop
    rw [OrdMap.lookup_erase] at hp
    split_ifs at hp with he
    have hep := (h e p).mp hp
    rw [List.getElem?_eraseIdx]
    split_ifs with hlt
    · exact hep
    · -- what stands at or behind the lost member is listed again
      exfalso
      have hne : p ≠ pos := by
        rintro rfl
        exact he (Option.some.inj (hep.symm.trans hpos))
      refine hdrop (List.mem_iff_getElem?.mpr ⟨p - 1 - pos, ?_⟩)
      rw [List.getElem?_drop, List.getElem?_eraseIdx, if_neg (by omega)]
      rw [show pos + (p - 1 - pos) + 1 = p by omega]
      exact hep
  · intro e p hep hlt
    rw [List.getElem?_eraseIdx, if_pos hlt] at hep
    have hne : e ≠ k := by
      rintro rfl
      exact absurd (Option.some.inj (((h e p).mpr hep).symm.trans hk)) hlt.ne
    rw [OrdMap.lookup_erase, if_neg hne]
    exact (h e p).mpr hep

end Tracks
end MetriEngine.Foundation

/-!
## Rolls

Members with the numbers they were given. A new member gets the number of members there are,
as far as numbers go. Members leave, and a later one may get a number that is still held.
-/
namespace MetriEngine.Foundation.Roll

variable {κ : Type*} [DecidableEq κ]

/-- A member put on the roll, where it is not there yet; there are `wrap` numbers. -/
def enrol (wrap : ℕ) (roll : List (κ × ℕ)) (k : κ) : List (κ × ℕ) :=
  if k ∈ roll.map Prod.fst then roll else roll ++ [(k, roll.length % wrap)]

/-- The member is there, or the number it would get is free. -/
def FreshFor (wrap : ℕ) (roll : List (κ × ℕ)) (k : κ) : Prop :=
  k ∈ roll.map Prod.fst ∨ roll.length % wrap ∉ roll.map Prod.snd

/-- So for each of the members that come one after another. -/
def AllFresh (wrap : ℕ) : List (κ × ℕ) → List κ → Prop
  | _, [] => True
  | roll, k :: ks => FreshFor wrap roll k ∧ AllFresh wrap (enrol wrap roll k) ks

variable {wrap : ℕ} {roll : List (κ × ℕ)}

theorem enrol_of_mem {k : κ} (h : k ∈ roll.map Prod.fst) : enrol wrap roll k = roll := if_pos h

theorem enrol_of_notMem {k : κ} (h : k ∉ roll.map Prod.fst) :
    enrol wrap roll k = roll ++ [(k, roll.length % wrap)] := if_neg h

theorem mem_enrol {k k' : κ} :
    k' ∈ (enrol wrap roll k).map Prod.fst ↔ k' ∈ roll.map Prod.fst ∨ k' = k := by
  by_cases hk : k ∈ roll.map Prod.fst
  · rw [enrol_of_mem hk]
    constructor
    · exact Or.inl
    · rintro (h | rfl)
      · exact h
      · exact hk
  · rw [enrol_of_notMem hk, List.map_append, List.mem_append, List.map_singleton,
      List.mem_singleton]

theorem mem_foldl_enrol {ks : List κ} {k' : κ} :
    k' ∈ (ks.foldl (enrol wrap) roll).map Prod.fst ↔ k' ∈ roll.map Prod.fst ∨ k' ∈ ks := by
  induction ks generalizing roll with
  | nil => simp
  | cons k ks ih => rw [List.foldl_cons, ih, mem_enrol, List.mem_cons, or_assoc]

theorem allFresh_append {ks ks' : List κ} :
    AllFresh wrap roll (ks ++ ks') ↔
      AllFresh wrap roll ks ∧ AllFresh wrap (ks.foldl (enrol wrap) roll) ks' := by
  induction ks generalizing roll with
  | nil => simp [AllFresh]
  | cons k ks ih => rw [List.cons_append, AllFresh, AllFresh, ih, List.foldl_cons, and_assoc]

/-- Nobody leaves when a member is put on the roll. -/
theorem sublist_enrol (k : κ) : roll.Sublist (enrol wrap roll k) := by
  unfold enrol
  split_ifs
  · exact List.Sublist.refl _
  · exact List.sublist_append_left _ _

theorem sublist_foldl_enrol (ks : List κ) : roll.Sublist (ks.foldl (enrol wrap) roll) := by
  induction ks generalizing roll with
  | nil => exact List.Sublist.refl _
  | cons k ks ih => exact (sublist_enrol k).trans ih

theorem nodup_enrol_iff {k : κ} (h : (roll.map Prod.snd).Nodup) :
    ((enrol wrap roll k).map Prod.snd).Nodup ↔ FreshFor wrap roll k := by
  unfold FreshFor
  by_cases hk : k ∈ roll.map Prod.fst
  · rw [enrol_of_mem hk]
    exact iff_of_true h (Or.inl hk)
  · rw [enrol_of_notMem hk, List.map_append, List.nodup_append]
    constructor
    · intro hnodup
      refine Or.inr fun hmem => ?_
      exact hnodup.2.2 _ hmem _ List.mem_cons_self rfl
    · intro hfresh
      refine ⟨h, List.nodup_singleton _, fun a ha b hb hab => ?_⟩
      rw [List.map_singleton, List.mem_singleton] at hb
      rw [hab, hb] at ha
      exact hfresh.resolve_left hk ha

/-- The numbers stay distinct exactly when each of the newcomers gets a free one. -/
theorem nodup_foldl_enrol_iff {ks : List κ} (h : (roll.map Prod.snd).Nodup) :
    ((ks.foldl (enrol wrap) roll).map Prod.snd).Nodup ↔ AllFresh wrap roll ks := by
  induction ks generalizing roll with
  | nil => exact iff_of_true h trivial
  | cons k ks ih =>
    rw [List.foldl_cons, AllFresh, ← nodup_enrol_iff h]
    constructor
    · intro hnodup
      have hk := hnodup.sublist ((sublist_foldl_enrol ks).map Prod.snd)
      exact ⟨hk, (ih hk).mp hnodup⟩
    · intro hfresh
      exact (ih hfresh.1).mpr hfresh.2

end MetriEngine.Foundation.Roll
