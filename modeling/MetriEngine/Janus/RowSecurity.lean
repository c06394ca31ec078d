import MetriEngine.Janus.Abac

/-!
# Row security

A boundary admits a row by itself: its scope holds for the row, and the row is at one of its
locations. The filters recombine the scopes and the locations of all boundaries; this is when
they let through no row but those that some boundary admits.
-/
namespace MetriEngine.Janus
open Foundation Storage Eav Aegis Cedar

/-! ### What a boundary admits -/

def OwnedBy (fields : OwnershipFields) (userId : String) (row : JsonMap) : Prop :=
  ∃ f ∈ fields.ownerField, rowVal row f = some (.string userId)

def AssignedTo (fields : OwnershipFields) (userId : String) (row : JsonMap) : Prop :=
  ∃ f ∈ fields.assigneeField, rowVal row f = some (.string userId)

def LocatedIn (entity : String) (locs : List String) (row : JsonMap) : Prop :=
  ∃ loc ∈ locs, rowVal row (locationField entity) = some (.string loc)

namespace Boundary

/-- The boundary's scope, where `own` and `assigned` say of whom the row is. -/
def ScopeHolds (b : Boundary) (own assigned : Prop) : Prop :=
  b.scope = "ALL" ∨ (b.scope = "OWN" ∧ own) ∨ (b.scope = "ASSIGNED" ∧ assigned) ∨
    (b.scope = "OWN_OR_ASSIGNED" ∧ (own ∨ assigned))

def Admits (entity : String) (fields : OwnershipFields) (userId : String) (row : JsonMap)
    (b : Boundary) : Prop :=
  b.scope ≠ "NONE" ∧ b.ScopeHolds (OwnedBy fields userId row) (AssignedTo fields userId row) ∧
    ∀ locs ∈ b.locations, LocatedIn entity locs row

def AsksOwner (b : Boundary) : Prop := b.scope = "OWN" ∨ b.scope = "OWN_OR_ASSIGNED"

def AsksAssignee (b : Boundary) : Prop := b.scope = "ASSIGNED" ∨ b.scope = "OWN_OR_ASSIGNED"

instance (b : Boundary) : Decidable b.AsksOwner := inferInstanceAs (Decidable (_ ∨ _))
instance (b : Boundary) : Decidable b.AsksAssignee := inferInstanceAs (Decidable (_ ∨ _))

theorem scopeHolds_of_asksOwner {b : Boundary} {own assigned : Prop} (h : b.AsksOwner) (ho : own) :
    b.ScopeHolds own assigned := by
  cases h with
  | inl h => exact .inr (.inl ⟨h, ho⟩)
  | inr h => exact .inr (.inr (.inr ⟨h, .inl ho⟩))

theorem scopeHolds_of_asksAssignee {b : Boundary} {own assigned : Prop} (h : b.AsksAssignee)
    (ha : assigned) : b.ScopeHolds own assigned := by
  cases h with
  | inl h => exact .inr (.inr (.inl ⟨h, ha⟩))
  | inr h => exact .inr (.inr (.inr ⟨h, .inr ha⟩))

/-- A scope that holds and is not `ALL` asks for the owner or for the assignee. -/
theorem ScopeHolds.asks {b : Boundary} {own assigned : Prop} (h : b.ScopeHolds own assigned)
    (hall : b.scope ≠ "ALL") : (b.AsksOwner ∧ own) ∨ (b.AsksAssignee ∧ assigned) := by
  rcases h with h | ⟨h, ho⟩ | ⟨h, ha⟩ | ⟨h, ho | ha⟩
  · exact absurd h hall
  · exact .inl ⟨.inl h, ho⟩
  · exact .inr ⟨.inl h, ha⟩
  · exact .inl ⟨.inr h, ho⟩
  · exact .inr ⟨.inr h, ha⟩

end Boundary

/-! ### What the filters let through -/

/-- The scope of the filters. -/
def QueryScope.Passes (fields : OwnershipFields) (own assigned : Prop) : QueryScope → Prop
  | .all => True
  | .own => fields.ownerField = Option.none ∨ own
  | .assigned => fields.assigneeField = Option.none ∨ assigned
  | .ownOrAssigned =>
    (fields.ownerField = Option.none ∧ fields.assigneeField = Option.none) ∨ own ∨ assigned
  | .none => False

theorem scope_ne_none (c : Consolidation) : c.scope ≠ .none := by
  unfold Consolidation.scope
  split_ifs <;> simp

/-- A row that the filters of the boundaries let through: a geographical filter is there only
if each boundary has a list and one of them names a location. -/
structure LetsThrough (entity : String) (bs : List Boundary) (fields : OwnershipFields)
    (userId : String) (row : JsonMap) : Prop where
  live : live bs ≠ []
  scope : (consolidate bs).scope.Passes fields (OwnedBy fields userId row) (AssignedTo fields userId row)
  location : (∃ b ∈ Janus.live bs, b.locations = none) ∨
    (∀ b ∈ Janus.live bs, ∀ locs ∈ b.locations, locs = []) ∨
    ∃ b ∈ Janus.live bs, ∃ locs ∈ b.locations, LocatedIn entity locs row

/-- Without the scope `ALL`, the scope asks for the owner if a boundary does, and for the
assignee if one does or none asks for the owner. -/
theorem scope_passes_iff {bs : List Boundary} {fields : OwnershipFields} {own assigned : Prop}
    (hall : ∀ b ∈ live bs, b.scope ≠ "ALL") :
    (consolidate bs).scope.Passes fields own assigned ↔
      if ∃ b ∈ live bs, b.AsksOwner then
        if ∃ b ∈ live bs, b.AsksAssignee then
          (fields.ownerField = none ∧ fields.assigneeField = none) ∨ own ∨ assigned
        else fields.ownerField = none ∨ own
      else fields.assigneeField = none ∨ assigned := by
  have hasAll : (live bs).any (fun b => b.scope = "ALL") = false := by simpa using hall
  have howner : (∃ b ∈ live bs, b.AsksOwner) ↔
      (live bs).any (fun b => b.scope = "OWN") = true ∨
      (live bs).any (fun b => b.scope = "OWN_OR_ASSIGNED") = true := by
    simp only [List.any_eq_true, decide_eq_true_eq, Boundary.AsksOwner, ← exists_or, ← and_or_left]
  have hassignee : (∃ b ∈ live bs, b.AsksAssignee) ↔
      (live bs).any (fun b => b.scope = "ASSIGNED") = true ∨
      (live bs).any (fun b => b.scope = "OWN_OR_ASSIGNED") = true := by
    simp only [List.any_eq_true, decide_eq_true_eq, Boundary.AsksAssignee, ← exists_or, ← and_or_left]
  simp only [howner, hassignee]
  rw [consolidate, foldl_noteBoundary, Consolidation.scope]
  simp only [hasAll, Bool.or_false, Bool.false_or, Bool.false_eq_true, if_false]
  cases (live bs).any (fun b => b.scope = "OWN") <;>
    cases (live bs).any (fun b => b.scope = "ASSIGNED") <;>
      cases (live bs).any (fun b => b.scope = "OWN_OR_ASSIGNED") <;> simp [QueryScope.Passes]

theorem scope_passes_of_all {bs : List Boundary} {fields : OwnershipFields} {own assigned : Prop}
    (hall : ∃ b ∈ live bs, b.scope = "ALL") : (consolidate bs).scope.Passes fields own assigned := by
  have hasAll : (live bs).any (fun b => b.scope = "ALL") = true := by simpa using hall
  rw [consolidate, foldl_noteBoundary, Consolidation.scope]
  simp [hasAll, QueryScope.Passes]

/-- The scope passes a row that is the user's wherever there is a field for it. -/
theorem scope_passes_of_fields {bs : List Boundary} {fields : OwnershipFields} :
    (consolidate bs).scope.Passes fields fields.ownerField.isSome fields.assigneeField.isSome := by
  have hscope := scope_ne_none (consolidate bs)
  revert hscope
  cases (consolidate bs).scope with
  | none => exact fun h => absurd rfl h
  | all => exact fun _ => trivial
  | own => cases h : fields.ownerField <;> simp [QueryScope.Passes, h]
  | assigned => cases h : fields.assigneeField <;> simp [QueryScope.Passes, h]
  | ownOrAssigned =>
    cases h : fields.ownerField <;> cases h' : fields.assigneeField <;> simp [QueryScope.Passes, h, h']

/-! ### When the recombination is harmless -/

/-- What the columns of a row can say: no owner without an owner field, no assignee without
an assignee field, and the same of both where the two are one. -/
structure Realizable (fields : OwnershipFields) (own assigned : Prop) : Prop where
  owner : own → fields.ownerField.isSome
  assignee : assigned → fields.assigneeField.isSome
  same : fields.ownerField = fields.assigneeField → (own ↔ assigned)

/-- Among the boundaries `part` that reach a place, those `whole` of the list have nothing more
to give: the scope `ALL` is there if the list has it; without it, some scope of the list has a
field to go by, and what the list asks of a field that there is, the part asks too. -/
structure Covered (fields : OwnershipFields) (whole part : List Boundary) : Prop where
  all : (∃ b ∈ whole, b.scope = "ALL") → ∃ b ∈ part, b.scope = "ALL"
  decided : (∀ b ∈ whole, b.scope ≠ "ALL") → ∃ b ∈ whole,
    (b.AsksOwner ∧ fields.ownerField.isSome) ∨ (b.AsksAssignee ∧ fields.assigneeField.isSome)
  owner : (∀ b ∈ whole, b.scope ≠ "ALL") → fields.ownerField.isSome → (∃ b ∈ whole, b.AsksOwner) →
    ∃ b ∈ part, b.AsksOwner ∨ (fields.ownerField = fields.assigneeField ∧ b.AsksAssignee)
  assignee : (∀ b ∈ whole, b.scope ≠ "ALL") → fields.assigneeField.isSome →
    (∃ b ∈ whole, b.AsksAssignee) →
    ∃ b ∈ part, b.AsksAssignee ∨ (fields.ownerField = fields.assigneeField ∧ b.AsksOwner)

set_option synthInstance.maxSize 256 in
instance (fields : OwnershipFields) (whole part : List Boundary) : Decidable (Covered fields whole part) :=
  decidable_of_iff
    (((∃ b ∈ whole, b.scope = "ALL") → ∃ b ∈ part, b.scope = "ALL") ∧
      ((∀ b ∈ whole, b.scope ≠ "ALL") → ∃ b ∈ whole,
        (b.AsksOwner ∧ fields.ownerField.isSome) ∨ (b.AsksAssignee ∧ fields.assigneeField.isSome)) ∧
      ((∀ b ∈ whole, b.scope ≠ "ALL") → fields.ownerField.isSome → (∃ b ∈ whole, b.AsksOwner) →
        ∃ b ∈ part, b.AsksOwner ∨ (fields.ownerField = fields.assigneeField ∧ b.AsksAssignee)) ∧
      ((∀ b ∈ whole, b.scope ≠ "ALL") → fields.assigneeField.isSome → (∃ b ∈ whole, b.AsksAssignee) →
        ∃ b ∈ part, b.AsksAssignee ∨ (fields.ownerField = fields.assigneeField ∧ b.AsksOwner)))
    ⟨fun ⟨all, decided, owner, assignee⟩ => ⟨all, decided, owner, assignee⟩,
      fun ⟨all, decided, owner, assignee⟩ => ⟨all, decided, owner, assignee⟩⟩

theorem Covered.holds {bs part : List Boundary} {fields : OwnershipFields} {own assigned : Prop}
    (h : Covered fields (live bs) part) (hreal : Realizable fields own assigned)
    (hpass : (consolidate bs).scope.Passes fields own assigned) :
    ∃ b ∈ part, b.ScopeHolds own assigned := by
  by_cases hall : ∃ b ∈ live bs, b.scope = "ALL"
  · obtain ⟨b, hb, hscope⟩ := h.all hall
    exact ⟨b, hb, .inl hscope⟩
  have hnot : ∀ b ∈ live bs, b.scope ≠ "ALL" := fun b hb heq => hall ⟨b, hb, heq⟩
  have howner (ho : own) (hasks : ∃ b ∈ live bs, b.AsksOwner) : ∃ b ∈ part, b.ScopeHolds own assigned := by
    obtain ⟨b, hb, hscope | ⟨hsame, hscope⟩⟩ := h.owner hnot (hreal.owner ho) hasks
    · exact ⟨b, hb, Boundary.scopeHolds_of_asksOwner hscope ho⟩
    · exact ⟨b, hb, Boundary.scopeHolds_of_asksAssignee hscope ((hreal.same hsame).mp ho)⟩
  have hassignee (ha : assigned) (hasks : ∃ b ∈ live bs, b.AsksAssignee) :
      ∃ b ∈ part, b.ScopeHolds own assigned := by
    obtain ⟨b, hb, hscope | ⟨hsame, hscope⟩⟩ := h.assignee hnot (hreal.assignee ha) hasks
    · exact ⟨b, hb, Boundary.scopeHolds_of_asksAssignee hscope ha⟩
    · exact ⟨b, hb, Boundary.scopeHolds_of_asksOwner hscope ((hreal.same hsame).mpr ha)⟩
  -- some scope has a field, so a filter that asks for nothing is not there
  obtain ⟨d, hd, hdecided⟩ := h.decided hnot
  rw [scope_passes_iff hnot] at hpass
  split_ifs at hpass with hasksOwner hasksAssignee
  · rcases hpass with ⟨hno, hna⟩ | ho | ha
    · simp [hno, hna] at hdecided
    · exact howner ho hasksOwner
    · exact hassignee ha hasksAssignee
  · rcases hpass with hno | ho
    · rcases hdecided with ⟨_, hsome⟩ | ⟨hasks, _⟩
      · simp [hno] at hsome
      · exact absurd ⟨d, hd, hasks⟩ hasksAssignee
    · exact howner ho hasksOwner
  · rcases hdecided with ⟨hasks, _⟩ | ⟨hasks, hsome⟩
    · exact absurd ⟨d, hd, hasks⟩ hasksOwner
    · rcases hpass with hna | ha
      · simp [hna] at hsome
      · exact hassignee ha ⟨d, hd, hasks⟩

theorem Covered.of_holds {bs part : List Boundary} {fields : OwnershipFields}
    (hpart : ∀ b ∈ part, b ∈ live bs)
    (h : ∀ own assigned, Realizable fields own assigned →
      (consolidate bs).scope.Passes fields own assigned → ∃ b ∈ part, b.ScopeHolds own assigned) :
    Covered fields (live bs) part := by
  have hnobody : Realizable fields False False := ⟨False.elim, False.elim, fun _ => Iff.rfl⟩
  constructor
  · intro hall
    obtain ⟨b, hb, hscope⟩ := h False False hnobody (scope_passes_of_all hall)
    rcases hscope with hscope | ⟨_, ho⟩ | ⟨_, ha⟩ | ⟨_, ho | ha⟩
    · exact ⟨b, hb, hscope⟩
    · exact ho.elim
    · exact ha.elim
    · exact ho.elim
    · exact ha.elim
  · intro hnot
    by_contra hnone
    -- a filter that lets through the rows of nobody lets through what no boundary admits
    have hopen (hpass : (consolidate bs).scope.Passes fields False False) : False := by
      obtain ⟨b, hb, hscope⟩ := h False False hnobody hpass
      rcases hscope.asks (hnot b (hpart b hb)) with ⟨_, ho⟩ | ⟨_, ha⟩
      · exact ho
      · exact ha
    have hfieldless (b : Boundary) (hb : b ∈ live bs) :
        (b.AsksOwner → fields.ownerField = none) ∧ (b.AsksAssignee → fields.assigneeField = none) := by
      constructor
      · intro hasks
        by_contra hsome
        exact hnone ⟨b, hb, .inl ⟨hasks, Option.isSome_iff_ne_none.mpr hsome⟩⟩
      · intro hasks
        by_contra hsome
        exact hnone ⟨b, hb, .inr ⟨hasks, Option.isSome_iff_ne_none.mpr hsome⟩⟩
    rw [scope_passes_iff hnot] at hopen
    split_ifs at hopen with hasksOwner hasksAssignee
    · obtain ⟨b, hb, hasks⟩ := hasksOwner
      obtain ⟨b', hb', hasks'⟩ := hasksAssignee
      exact hopen (.inl ⟨(hfieldless b hb).1 hasks, (hfieldless b' hb').2 hasks'⟩)
    · obtain ⟨b, hb, hasks⟩ := hasksOwner
      exact hopen (.inl ((hfieldless b hb).1 hasks))
    · -- no scope of the list is known: the filter asks for the assignee all the same
      have hsome : fields.assigneeField.isSome :=
        Option.isSome_iff_ne_none.mpr fun hnone => hopen (.inl hnone)
      obtain ⟨b, hb, hscope⟩ := h (fields.ownerField = fields.assigneeField) True
        ⟨fun hsame => hsame ▸ hsome, fun _ => hsome, fun hsame => iff_true_intro hsame⟩ (by
          rw [scope_passes_iff hnot, if_neg hasksOwner]
          exact .inr trivial)
      rcases hscope.asks (hnot b (hpart b hb)) with ⟨hasks, _⟩ | ⟨hasks, _⟩
      · exact hasksOwner ⟨b, hpart b hb, hasks⟩
      · exact absurd ((hfieldless b (hpart b hb)).2 hasks) (Option.isSome_iff_ne_none.mp hsome)
  · intro hnot hsome hasks
    obtain ⟨b, hb, hscope⟩ := h True (fields.ownerField = fields.assigneeField)
      ⟨fun _ => hsome, fun hsame => hsame ▸ hsome, fun hsame => (iff_true_intro hsame).symm⟩ (by
        rw [scope_passes_iff hnot, if_pos hasks]
        split_ifs
        · exact .inr (.inl trivial)
        · exact .inr trivial)
    rcases hscope.asks (hnot b (hpart b hb)) with ⟨hown, _⟩ | ⟨hassigned, hsame⟩
    · exact ⟨b, hb, .inl hown⟩
    · exact ⟨b, hb, .inr ⟨hsame, hassigned⟩⟩
  · intro hnot hsome hasks
    obtain ⟨b, hb, hscope⟩ := h (fields.ownerField = fields.assigneeField) True
      ⟨fun hsame => hsame ▸ hsome, fun _ => hsome, fun hsame => iff_true_intro hsame⟩ (by
        rw [scope_passes_iff hnot, if_pos hasks]
        split_ifs
        · exact .inr (.inr trivial)
        · exact .inr trivial)
    rcases hscope.asks (hnot b (hpart b hb)) with ⟨hown, hsame⟩ | ⟨hassigned, _⟩
    · exact ⟨b, hb, .inr ⟨hsame, hown⟩⟩
    · exact ⟨b, hb, .inl hassigned⟩

/-! ### Places -/

/-- The boundaries that reach a place: a location, or where no location of a list is. -/
def reaching (bs : List Boundary) (place : Option String) : List Boundary :=
  (live bs).filter fun b => ∀ locs ∈ b.locations, ∃ loc ∈ place, loc ∈ locs

/-- The places at which the boundaries differ most: outside of all lists where some boundary
has none, and otherwise the locations that are listed. -/
def places (bs : List Boundary) : List (Option String) :=
  if ∃ b ∈ live bs, b.locations = none then [none]
  else (live bs).flatMap fun b => (b.locations.getD []).map some

theorem mem_places {bs : List Boundary} {place : Option String}
    (hlisted : ∀ b ∈ live bs, b.locations ≠ none) :
    place ∈ places bs ↔ ∃ b ∈ live bs, ∃ locs ∈ b.locations, ∃ loc ∈ locs, some loc = place := by
  rw [places, if_neg fun ⟨b, hb, hnone⟩ => hlisted b hb hnone, List.mem_flatMap]
  simp only [List.mem_map]
  apply exists_congr
  intro b
  cases b.locations <;> simp

/-- The boundaries that have a scope reach somewhere, and wherever they reach, those that do
give what the whole list gives. -/
def Sound (bs : List Boundary) (fields : OwnershipFields) : Prop :=
  live bs = [] ∨
    (places bs ≠ [] ∧ ∀ place ∈ places bs, Covered fields (live bs) (reaching bs place))

instance (bs : List Boundary) (fields : OwnershipFields) : Decidable (Sound bs fields) :=
  inferInstanceAs (Decidable (_ ∨ _))

/-- What some boundary admits the filters let through. -/
theorem letsThrough_of_admits {entity : String} {bs : List Boundary} {fields : OwnershipFields}
    {userId : String} {row : JsonMap} {b : Boundary} (hb : b ∈ bs)
    (h : b.Admits entity fields userId row) : LetsThrough entity bs fields userId row := by
  obtain ⟨hscope, hholds, hloc⟩ := h
  have hlive : b ∈ live bs := mem_live.mpr ⟨hb, hscope⟩
  refine ⟨List.ne_nil_of_mem hlive, ?_, ?_⟩
  · by_cases hall : ∃ b ∈ live bs, b.scope = "ALL"
    · exact scope_passes_of_all hall
    · have hnot : ∀ b ∈ live bs, b.scope ≠ "ALL" := fun b hb heq => hall ⟨b, hb, heq⟩
      rw [scope_passes_iff hnot]
      rcases hholds.asks (hnot b hlive) with ⟨hasks, ho⟩ | ⟨hasks, ha⟩
      · rw [if_pos ⟨b, hlive, hasks⟩]
        split_ifs
        · exact .inr (.inl ho)
        · exact .inr ho
      · rw [if_pos (c := ∃ b ∈ live bs, b.AsksAssignee) ⟨b, hlive, hasks⟩]
        split_ifs
        · exact .inr (.inr ha)
        · exact .inr ha
  · cases hlocs : b.locations with
    | none => exact .inl ⟨b, hlive, hlocs⟩
    | some locs => exact .inr (.inr ⟨b, hlive, locs, hlocs, hloc locs hlocs⟩)

theorem Sound.admits {entity : String} {bs : List Boundary} {fields : OwnershipFields}
    {userId : String} {row : JsonMap} (h : Sound bs fields)
    (hrow : LetsThrough entity bs fields userId row) :
    ∃ b ∈ bs, b.Admits entity fields userId row := by
  obtain ⟨hlive, hpass, hloc⟩ := hrow
  have hreal : Realizable fields (OwnedBy fields userId row) (AssignedTo fields userId row) := by
    refine ⟨?_, ?_, ?_⟩
    · rintro ⟨f, hf, _⟩
      exact Option.isSome_of_mem hf
    · rintro ⟨f, hf, _⟩
      exact Option.isSome_of_mem hf
    · intro hsame
      rw [OwnedBy, AssignedTo, hsame]
  -- the boundary that reaches the row's place and whose scope holds admits the row
  have hadmits {place : Option String} (hplace : place ∈ places bs)
      (hthere : ∀ locs, ∀ loc ∈ place, loc ∈ locs → LocatedIn entity locs row) :
      ∃ b ∈ bs, b.Admits entity fields userId row := by
    obtain ⟨b, hb, hscope⟩ := ((h.resolve_left hlive).2 place hplace).holds hreal hpass
    obtain ⟨hb, hreach⟩ := List.mem_filter.mp hb
    obtain ⟨hmem, hnone⟩ := mem_live.mp hb
    refine ⟨b, hmem, hnone, hscope, fun locs hlocs => ?_⟩
    obtain ⟨loc, hloc, hin⟩ := of_decide_eq_true hreach locs hlocs
    exact hthere locs loc hloc hin
  by_cases hunrestricted : ∃ b ∈ live bs, b.locations = none
  · have hplace : none ∈ places bs := by simp [places, hunrestricted]
    exact hadmits hplace (by simp)
  · have hlisted : ∀ b ∈ live bs, b.locations ≠ none := fun b hb hnone => hunrestricted ⟨b, hb, hnone⟩
    rcases hloc with hnone | hempty | ⟨b, hb, locs, hlocs, loc, hin, hval⟩
    · exact absurd hnone hunrestricted
    · have hnowhere : places bs = [] := by
        apply List.eq_nil_iff_forall_not_mem.mpr
        intro place hplace
        obtain ⟨b, hb, locs, hlocs, loc, hin, _⟩ := (mem_places hlisted).mp hplace
        rw [hempty b hb locs hlocs] at hin
        cases hin
      exact absurd hnowhere (h.resolve_left hlive).1
    · apply hadmits ((mem_places hlisted).mpr ⟨b, hb, locs, hlocs, loc, hin, rfl⟩)
      intro locs' loc' hloc' hin'
      cases hloc'
      exact ⟨loc, hin', hval⟩

/-! ### Rows for what columns can say -/

/-- A value that an empty text filter takes for its own: a zero or `false`. -/
def isBlank : JsonValue → Bool
  | .number n => n.asF64.eq ⟨0⟩
  | .bool b => !b
  | _ => false

/-- A row whose owner and assignee are no zeros and no `false`; whose location is a text, if a
list names the empty one; and whose tenant is not the one of the denial, if there is a denial. -/
structure PlainRow (entity : String) (bs : List Boundary) (fields : OwnershipFields)
    (row : JsonMap) : Prop where
  owner : ∀ f ∈ fields.ownerField, ∀ v ∈ rowVal row f, isBlank v = false
  assignee : ∀ f ∈ fields.assigneeField, ∀ v ∈ rowVal row f, isBlank v = false
  location : (∃ loc, rowVal row (locationField entity) = some (.string loc)) ∨
    ∀ b ∈ bs, ∀ locs ∈ b.locations, "" ∉ locs
  tenant : live bs = [] → ∀ v ∈ rowVal row "tenant/id",
    v ≠ .string "DENIED_BY_SCOPE_NONE" ∧ isBlank v = false

theorem rowVal_of_lookup {row : JsonMap} {field : String} {v : JsonValue}
    (h : row.lookup field = some v) : rowVal row field = some v := by
  rw [rowVal, h, Option.some_or]

def insertField (row : JsonMap) (field : Option String) (v : JsonValue) : JsonMap :=
  match field with
  | some f => row.insert f v
  | none => row

theorem exists_fresh (l : List String) : ∃ s, s ∉ l := by
  have hinj : Function.Injective fun n : ℕ => String.ofList (List.replicate n 'x') := by
    intro n m h
    simpa using congrArg (fun s => s.toList.length) h
  have hinf : Infinite String := Infinite.of_injective _ hinj
  obtain ⟨s, hs⟩ := Infinite.exists_notMem_finset l.toFinset
  exact ⟨s, by simpa using hs⟩

/-- What the columns can say, a row says at every location. -/
theorem exists_row (entity : String) {fields : OwnershipFields} {own assigned : Prop}
    (hreal : Realizable fields own assigned) (loc : String) :
    ∃ userId row, (OwnedBy fields userId row ↔ own) ∧ (AssignedTo fields userId row ↔ assigned) ∧
      rowVal row (locationField entity) = some (.string loc) ∧
      (∀ f ∈ fields.ownerField, ∀ v ∈ rowVal row f, isBlank v = false) ∧
      ∀ f ∈ fields.assigneeField, ∀ v ∈ rowVal row f, isBlank v = false := by
  classical
  obtain ⟨stranger, hstranger⟩ := exists_fresh [loc]
  obtain ⟨other, hother⟩ := exists_fresh [loc, stranger]
  simp only [List.mem_cons, List.not_mem_nil, or_false, not_or] at hstranger hother
  -- the user is called like the location where a true answer stands in its column
  let userId := if (own ∧ fields.ownerField = some (locationField entity)) ∨
    (assigned ∧ fields.assigneeField = some (locationField entity)) then loc else stranger
  let answer (truth : Prop) : JsonValue := .string (if truth then userId else other)
  let row := (insertField (insertField ∅ fields.assigneeField (answer assigned)) fields.ownerField
    (answer own)).insert (locationField entity) (.string loc)
  have huser : userId ≠ other := by
    dsimp only [userId]
    split_ifs
    · exact fun h => hother.1 h.symm
    · exact fun h => hother.2 h.symm
  have hanswer (truth : Prop) : answer truth = .string userId ↔ truth := by
    by_cases htruth : truth <;> simp [answer, htruth, huser.symm]
  have howner : ∀ f ∈ fields.ownerField, ∃ s, rowVal row f = some (.string s) ∧ (s = userId ↔ own) := by
    intro f hf
    by_cases hloc : f = locationField entity
    · refine ⟨loc, rowVal_of_lookup (by simp [row, hloc]), ?_⟩
      subst hloc
      by_cases hown : own
      · simp [userId, hown, Option.mem_def.mp hf]
      · have hnot : ¬ (assigned ∧ fields.assigneeField = some (locationField entity)) := fun h =>
          hown ((hreal.same (hf.trans h.2.symm)).mpr h.1)
        simp [userId, hown, hnot, Ne.symm hstranger]
    · refine ⟨if own then userId else other, rowVal_of_lookup ?_, ?_⟩
      · simp [row, hloc, insertField, Option.mem_def.mp hf, answer]
      · by_cases hown : own <;> simp [hown, huser.symm]
  have hassignee : ∀ f ∈ fields.assigneeField, ∃ s, rowVal row f = some (.string s) ∧
      (s = userId ↔ assigned) := by
    intro f hf
    by_cases hsame : fields.ownerField = some f
    · obtain ⟨s, hs, hiff⟩ := howner f hsame
      exact ⟨s, hs, hiff.trans (hreal.same (hsame.trans hf.symm))⟩
    by_cases hloc : f = locationField entity
    · refine ⟨loc, rowVal_of_lookup (by simp [row, hloc]), ?_⟩
      subst hloc
      by_cases hassigned : assigned
      · simp [userId, hassigned, Option.mem_def.mp hf]
      · simp [userId, hassigned, hsame, Ne.symm hstranger]
    · refine ⟨if assigned then userId else other, rowVal_of_lookup ?_, ?_⟩
      · cases hown : fields.ownerField with
        | none => simp [row, hloc, insertField, hown, Option.mem_def.mp hf, answer]
        | some g =>
          have hne : f ≠ g := fun h => hsame (by rw [hown, h])
          simp [row, hloc, insertField, hown, Option.mem_def.mp hf, answer, hne]
      · by_cases hassigned : assigned <;> simp [hassigned, huser.symm]
  refine ⟨userId, row, ?_, ?_, rowVal_of_lookup (by simp [row]), ?_, ?_⟩
  · constructor
    · rintro ⟨f, hf, hval⟩
      obtain ⟨s, hs, hiff⟩ := howner f hf
      exact hiff.mp (by simpa [hs] using hval)
    · intro hown
      obtain ⟨f, hf⟩ := Option.isSome_iff_exists.mp (hreal.owner hown)
      obtain ⟨s, hs, hiff⟩ := howner f hf
      exact ⟨f, hf, by rw [hs, hiff.mpr hown]⟩
  · constructor
    · rintro ⟨f, hf, hval⟩
      obtain ⟨s, hs, hiff⟩ := hassignee f hf
      exact hiff.mp (by simpa [hs] using hval)
    · intro hassigned
      obtain ⟨f, hf⟩ := Option.isSome_iff_exists.mp (hreal.assignee hassigned)
      obtain ⟨s, hs, hiff⟩ := hassignee f hf
      exact ⟨f, hf, by rw [hs, hiff.mpr hassigned]⟩
  · intro f hf v hv
    obtain ⟨s, hs, _⟩ := howner f hf
    rw [hs] at hv
    cases hv
    rfl
  · intro f hf v hv
    obtain ⟨s, hs, _⟩ := hassignee f hf
    rw [hs] at hv
    cases hv
    rfl

/-- If each plain row that the filters let through is admitted, the boundaries are sound. -/
theorem sound_of_admits {entity : String} {bs : List Boundary} {fields : OwnershipFields}
    (h : ∀ userId row, PlainRow entity bs fields row → LetsThrough entity bs fields userId row →
      ∃ b ∈ bs, b.Admits entity fields userId row) : Sound bs fields := by
  by_cases hlive : live bs = []
  · exact .inl hlive
  have hrow {own assigned : Prop} (hreal : Realizable fields own assigned)
      (hpass : (consolidate bs).scope.Passes fields own assigned) (loc : String)
      (hloc : (∃ b ∈ live bs, b.locations = none) ∨ (∀ b ∈ live bs, ∀ locs ∈ b.locations, locs = []) ∨
        ∃ b ∈ live bs, ∃ locs ∈ b.locations, loc ∈ locs) :
      ∃ b ∈ live bs, b.ScopeHolds own assigned ∧ ∀ locs ∈ b.locations, loc ∈ locs := by
    obtain ⟨userId, row, hown, hassigned, hval, hplain⟩ := exists_row entity hreal loc
    have hthrough : LetsThrough entity bs fields userId row := by
      refine ⟨hlive, by rwa [propext hown, propext hassigned], hloc.imp_right fun h => h.imp_right ?_⟩
      rintro ⟨b, hb, locs, hlocs, hin⟩
      exact ⟨b, hb, locs, hlocs, loc, hin, hval⟩
    obtain ⟨b, hb, hscope, hholds, hin⟩ := h userId row
      ⟨hplain.1, hplain.2, .inl ⟨loc, hval⟩, fun h => absurd h hlive⟩ hthrough
    refine ⟨b, mem_live.mpr ⟨hb, hscope⟩, by rwa [propext hown, propext hassigned] at hholds, ?_⟩
    intro locs hlocs
    obtain ⟨loc', hin', hval'⟩ := hin locs hlocs
    rw [hval] at hval'
    cases hval'
    exact hin'
  refine .inr ⟨fun hnowhere => ?_, fun place hplace => ?_⟩
  · -- lists of no location filter nothing and reach nowhere
    have hlisted : ∀ b ∈ live bs, b.locations ≠ none := by
      intro b hb hnone
      rw [places, if_pos ⟨b, hb, hnone⟩] at hnowhere
      cases hnowhere
    have hempty : ∀ b ∈ live bs, ∀ locs ∈ b.locations, locs = [] := by
      intro b hb locs hlocs
      apply List.eq_nil_iff_forall_not_mem.mpr
      intro loc hin
      have hplace := (mem_places hlisted).mpr ⟨b, hb, locs, hlocs, loc, hin, rfl⟩
      rw [hnowhere] at hplace
      cases hplace
    have hreal : Realizable fields fields.ownerField.isSome fields.assigneeField.isSome :=
      ⟨id, id, fun hsame => by rw [hsame]⟩
    obtain ⟨b, hb, _, hin⟩ := hrow hreal scope_passes_of_fields "" (.inr (.inl hempty))
    obtain ⟨locs, hlocs⟩ := Option.ne_none_iff_exists'.mp (hlisted b hb)
    have := hin locs hlocs
    rw [hempty b hb locs hlocs] at this
    cases this
  · apply Covered.of_holds
    · exact fun b hb => (List.mem_filter.mp hb).1
    intro own assigned hreal hpass
    by_cases hunrestricted : ∃ b ∈ live bs, b.locations = none
    · rw [places, if_pos hunrestricted] at hplace
      cases List.mem_singleton.mp hplace
      obtain ⟨loc, hfresh⟩ := exists_fresh ((live bs).flatMap fun b => b.locations.getD [])
      obtain ⟨b, hb, hholds, hin⟩ := hrow hreal hpass loc (.inl hunrestricted)
      refine ⟨b, List.mem_filter.mpr ⟨hb, decide_eq_true ?_⟩, hholds⟩
      intro locs hlocs
      refine absurd (List.mem_flatMap.mpr ⟨b, hb, ?_⟩) hfresh
      rw [Option.mem_def.mp hlocs]
      exact hin locs hlocs
    · obtain ⟨b, hb, locs, hlocs, loc, hin, rfl⟩ :=
        (mem_places fun b hb hnone => hunrestricted ⟨b, hb, hnone⟩).mp hplace
      obtain ⟨b', hb', hholds, hin'⟩ := hrow hreal hpass loc (.inr (.inr ⟨b, hb, locs, hlocs, hin⟩))
      exact ⟨b', List.mem_filter.mpr ⟨hb', decide_eq_true fun locs' hlocs' =>
        ⟨loc, rfl, hin' locs' hlocs'⟩⟩, hholds⟩

/-! ### The filters of requests -/

section Filters
variable [TextSearch]

/-- The equality of filters: with a text, and with a blank value of another type. -/
def Matches (row : JsonMap) (userId : String) (field : Option String) : Prop :=
  ∃ f ∈ field, ∃ v ∈ rowVal row f, v = .string userId ∨ isBlank v = true

omit [TextSearch] in
theorem evalEq_text {v : JsonValue} {value : String} :
    evalEq (some v) (some { stringVal := some value }) = true ↔ v = .string value ∨ isBlank v = true := by
  cases v with
  | string text => simp [evalEq, isBlank, eq_comm (a := text)]
  | number n =>
    constructor
    · exact .inr
    · rintro (h | h)
      · cases h
      · exact h
  | bool b => cases b <;> simp [evalEq, isBlank]
  | null | array _ | object _ => simp [evalEq, isBlank]

theorem evalFilterNode_fieldEquals {row : JsonMap} {field value : String} :
    evalFilterNode row (fieldEquals field value) = true ↔
      ∃ v ∈ rowVal row field, v = .string value ∨ isBlank v = true := by
  simp only [fieldEquals, evalFilterNode, evalCriteria, Option.getD_some]
  cases rowVal row field with
  | none => simp [evalEq]
  | some v => simpa using evalEq_text

theorem evalFilterNode_fieldIn {row : JsonMap} {field : String} {values : List String} :
    evalFilterNode row (fieldIn field values) = true ↔ textOf (rowVal row field) ∈ values := by
  simp [fieldIn, evalFilterNode, evalCriteria, memberOf]

theorem evalAll_scopeFilters {row : JsonMap} {fields : OwnershipFields} {userId : String}
    {scope : QueryScope} (hscope : scope ≠ .none) :
    evalAll row (scopeFilters fields userId scope) = true ↔
      scope.Passes fields (Matches row userId fields.ownerField)
        (Matches row userId fields.assigneeField) := by
  obtain ⟨owner, assignee⟩ := fields
  cases scope with
  | none => exact absurd rfl hscope
  | all => simp [scopeFilters, evalAll, QueryScope.Passes]
  | own => cases owner <;> simp [scopeFilters, evalAll, QueryScope.Passes, Matches, evalFilterNode_fieldEquals]
  | assigned =>
    cases assignee <;> simp [scopeFilters, evalAll, QueryScope.Passes, Matches, evalFilterNode_fieldEquals]
  | ownOrAssigned =>
    cases owner <;> cases assignee <;>
      simp [scopeFilters, evalAll, evalAny, evalFilterNode.eq_3, QueryScope.Passes, Matches,
        evalFilterNode_fieldEquals]

omit [TextSearch] in
theorem QueryScope.Passes.mono {scope : QueryScope} {fields : OwnershipFields}
    {own assigned own' assigned' : Prop} (h : scope.Passes fields own assigned) (ho : own → own')
    (ha : assigned → assigned') : scope.Passes fields own' assigned' := by
  cases scope with
  | all => exact h
  | own => exact h.imp_right ho
  | assigned => exact h.imp_right ha
  | ownOrAssigned => exact h.imp_right fun h => h.imp ho ha
  | none => exact h

omit [TextSearch] in
/-- Without a boundary that has a scope the filters deny, but to the master tenant its tenants. -/
theorem abacFilters_of_not_live {isMaster : Bool} {entity : String} {bs : List Boundary}
    {fields : OwnershipFields} {userId : String} (hlive : live bs = []) :
    abacFilters isMaster entity bs fields userId =
      if entity = "tenant" ∧ isMaster then [] else [fieldEquals "tenant/id" "DENIED_BY_SCOPE_NONE"] := by
  have hnoLocations : (consolidate bs).allPermittedLocations = [] := by
    apply List.eq_nil_iff_forall_not_mem.mpr
    intro loc hloc
    obtain ⟨b, hb, _⟩ := mem_allPermittedLocations.mp hloc
    rw [hlive] at hb
    cases hb
  rw [abacFilters, if_pos (validScopesCount_eq_zero.mpr hlive)]
  split_ifs <;> simp_all [scopeFilters]

/-- With a boundary that has a scope, the filters are the geographical one, if there is one,
and those of the scope. -/
theorem evalAll_abacFilters {isMaster : Bool} {entity : String} {bs : List Boundary}
    {fields : OwnershipFields} {userId : String} {row : JsonMap} (hlive : live bs ≠ []) :
    evalAll row (abacFilters isMaster entity bs fields userId) = true ↔
      ((consolidate bs).locationRestricted = true → (consolidate bs).allPermittedLocations ≠ [] →
        textOf (rowVal row (locationField entity)) ∈ (consolidate bs).allPermittedLocations) ∧
      (consolidate bs).scope.Passes fields (Matches row userId fields.ownerField)
        (Matches row userId fields.assigneeField) := by
  rw [abacFilters, if_neg fun h => hlive (validScopesCount_eq_zero.mp h), evalAll_iff,
    List.forall_mem_append, ← evalAll_iff, ← evalAll_iff, evalAll_scopeFilters (scope_ne_none _)]
  apply and_congr_left'
  have hscope : (consolidate bs).scope ≠ .none := scope_ne_none _
  by_cases hr : (consolidate bs).locationRestricted = true
  · by_cases hl : (consolidate bs).allPermittedLocations = []
    · simp [hr, hl, evalAll]
    · simp [hr, hl, hscope, evalAll, evalFilterNode_fieldIn]
  · simp [hr, evalAll]

theorem accepts_of_letsThrough {isMaster : Bool} {entity : String} {bs : List Boundary}
    {fields : OwnershipFields} {userId : String} {row : JsonMap}
    (h : LetsThrough entity bs fields userId row) :
    evalAll row (abacFilters isMaster entity bs fields userId) = true := by
  refine (evalAll_abacFilters h.live).mpr ⟨fun hr hl => ?_, ?_⟩
  · rw [locationRestricted_iff] at hr
    rcases h.location with ⟨b, hb, hnone⟩ | hempty | ⟨b, hb, locs, hlocs, loc, hin, hval⟩
    · exact absurd hnone (hr b hb)
    · obtain ⟨loc, hloc⟩ := List.exists_mem_of_ne_nil _ hl
      obtain ⟨b, hb, locs, hlocs, hin⟩ := mem_allPermittedLocations.mp hloc
      rw [hempty b hb locs hlocs] at hin
      cases hin
    · exact mem_allPermittedLocations.mpr ⟨b, hb, locs, hlocs, by simpa [hval, textOf, JsonValue.asStr]⟩
  · apply h.scope.mono
    · rintro ⟨f, hf, hval⟩
      exact ⟨f, hf, _, hval, .inl rfl⟩
    · rintro ⟨f, hf, hval⟩
      exact ⟨f, hf, _, hval, .inl rfl⟩

theorem letsThrough_of_accepts {isMaster : Bool} {entity : String} {bs : List Boundary}
    {fields : OwnershipFields} {userId : String} {row : JsonMap}
    (hdenied : live bs = [] → ¬ (entity = "tenant" ∧ isMaster)) (hplain : PlainRow entity bs fields row)
    (h : evalAll row (abacFilters isMaster entity bs fields userId) = true) :
    LetsThrough entity bs fields userId row := by
  by_cases hlive : live bs = []
  · rw [abacFilters_of_not_live hlive, if_neg (hdenied hlive)] at h
    have hdenied : evalFilterNode row (fieldEquals "tenant/id" "DENIED_BY_SCOPE_NONE") = true :=
      evalAll_iff.mp h _ (List.mem_singleton_self _)
    obtain ⟨v, hv, htext | hblank⟩ := evalFilterNode_fieldEquals.mp hdenied
    · exact absurd htext (hplain.tenant hlive v hv).1
    · rw [(hplain.tenant hlive v hv).2] at hblank
      cases hblank
  · obtain ⟨hloc, hpass⟩ := (evalAll_abacFilters hlive).mp h
    refine ⟨hlive, hpass.mono ?_ ?_, ?_⟩
    · rintro ⟨f, hf, v, hv, rfl | hblank⟩
      · exact ⟨f, hf, hv⟩
      · simp [hplain.owner f hf v hv] at hblank
    · rintro ⟨f, hf, v, hv, rfl | hblank⟩
      · exact ⟨f, hf, hv⟩
      · simp [hplain.assignee f hf v hv] at hblank
    by_cases hunrestricted : ∃ b ∈ live bs, b.locations = none
    · exact .inl hunrestricted
    refine .inr (or_iff_not_imp_left.mpr fun hsome => ?_)
    have hl : (consolidate bs).allPermittedLocations ≠ [] := by
      intro hnil
      apply hsome
      intro b hb locs hlocs
      apply List.eq_nil_iff_forall_not_mem.mpr
      intro loc hin
      have := mem_allPermittedLocations.mpr ⟨b, hb, locs, hlocs, hin⟩
      rw [hnil] at this
      cases this
    have hin := hloc (locationRestricted_iff.mpr fun b hb hnone => hunrestricted ⟨b, hb, hnone⟩) hl
    obtain ⟨b, hb, locs, hlocs, hmem⟩ := mem_allPermittedLocations.mp hin
    refine ⟨b, hb, locs, hlocs, ?_⟩
    rcases hplain.location with ⟨loc, hval⟩ | hempty
    · exact ⟨loc, by simpa [hval, textOf, JsonValue.asStr] using hmem, hval⟩
    · -- only a text is in a list that does not name the empty one
      cases hval : rowVal row (locationField entity) with
      | none =>
        rw [hval] at hmem
        exact absurd hmem (hempty b (mem_live.mp hb).1 locs hlocs)
      | some v =>
        rw [hval] at hmem
        cases v with
        | string loc => exact ⟨loc, hmem, hval⟩
        | null | bool _ | number _ | array _ | object _ =>
          exact absurd hmem (hempty b (mem_live.mp hb).1 locs hlocs)

end Filters

/-! ### `where` nodes -/

mutual

/-- A node holds of a row if its columns have the values. -/
def WhereNode.Holds (row : JsonMap) : WhereNode → Prop
  | .eq column value => rowVal row column = some (.string value)
  | .isIn column values => ∃ value ∈ values, rowVal row column = some (.string value)
  | .and nodes => WhereNode.HoldAll row nodes
  | .or nodes => WhereNode.HoldSome row nodes

def WhereNode.HoldAll (row : JsonMap) : List WhereNode → Prop
  | [] => True
  | node :: rest => node.Holds row ∧ WhereNode.HoldAll row rest

def WhereNode.HoldSome (row : JsonMap) : List WhereNode → Prop
  | [] => False
  | node :: rest => node.Holds row ∨ WhereNode.HoldSome row rest

end

/-- The compiler's answer lets a row through: it is no error, and its node, if there is one,
holds. -/
def NodeAccepts (answer : Except DomainError (Option WhereNode)) (row : JsonMap) : Prop :=
  ∃ node, answer = .ok node ∧ ∀ n ∈ node, n.Holds row

theorem locNode_holds {entity : String} {bs : List Boundary} {row : JsonMap} :
    (∀ n ∈ locNode entity (consolidate bs), n.Holds row) ↔
      (∃ b ∈ live bs, b.locations = none) ∨ (∀ b ∈ live bs, ∀ locs ∈ b.locations, locs = []) ∨
        ∃ b ∈ live bs, ∃ locs ∈ b.locations, LocatedIn entity locs row := by
  have hempty : (consolidate bs).allPermittedLocations = [] ↔
      ∀ b ∈ live bs, ∀ locs ∈ b.locations, locs = [] := by
    rw [List.eq_nil_iff_forall_not_mem]
    simp only [mem_allPermittedLocations, not_exists, not_and, List.eq_nil_iff_forall_not_mem]
    exact ⟨fun h b hb locs hlocs loc => h loc b hb locs hlocs, fun h loc b hb locs hlocs => h b hb locs hlocs loc⟩
  have hin : (WhereNode.isIn (locationField entity) (consolidate bs).allPermittedLocations).Holds row ↔
      ∃ b ∈ live bs, ∃ locs ∈ b.locations, LocatedIn entity locs row := by
    simp only [WhereNode.Holds, mem_allPermittedLocations, LocatedIn]
    constructor
    · rintro ⟨loc, ⟨b, hb, locs, hlocs, hloc⟩, hval⟩
      exact ⟨b, hb, locs, hlocs, loc, hloc, hval⟩
    · rintro ⟨b, hb, locs, hlocs, loc, hloc, hval⟩
      exact ⟨loc, ⟨b, hb, locs, hlocs, hloc⟩, hval⟩
  rw [locNode]
  split_ifs with h
  · obtain ⟨hr, hl⟩ := h
    have hrestricted : ¬ ∃ b ∈ live bs, b.locations = none := fun ⟨b, hb, hnone⟩ =>
      locationRestricted_iff.mp hr b hb hnone
    rw [or_iff_right hrestricted, or_iff_right fun h => hl (hempty.mpr h), ← hin]
    simp
  · rw [not_and_or, not_not, locationRestricted_iff, hempty] at h
    simp only [Option.mem_def, reduceCtorEq, false_implies, implies_true, true_iff]
    rcases h with h | h
    · push Not at h
      exact .inl h
    · exact .inr (.inl h)

theorem scopeNode_holds {fields : OwnershipFields} {userId : String} {row : JsonMap}
    {scope : QueryScope} (hscope : scope ≠ .none) :
    (∀ n ∈ scopeNode fields userId scope, n.Holds row) ↔
      scope.Passes fields (OwnedBy fields userId row) (AssignedTo fields userId row) := by
  obtain ⟨owner, assignee⟩ := fields
  cases scope with
  | none => exact absurd rfl hscope
  | all => simp [scopeNode, QueryScope.Passes]
  | own => cases owner <;> simp [scopeNode, QueryScope.Passes, OwnedBy, WhereNode.Holds]
  | assigned => cases assignee <;> simp [scopeNode, QueryScope.Passes, AssignedTo, WhereNode.Holds]
  | ownOrAssigned =>
    cases owner <;> cases assignee <;>
      simp [scopeNode, QueryScope.Passes, OwnedBy, AssignedTo, WhereNode.Holds, WhereNode.HoldSome]

theorem nodeAccepts_iff {entity : String} {bs : List Boundary} {fields : OwnershipFields}
    {userId : String} {row : JsonMap} :
    NodeAccepts (buildAbacNode entity bs fields userId) row ↔ LetsThrough entity bs fields userId row := by
  by_cases hlive : live bs = []
  · have herror : ¬ NodeAccepts (buildAbacNode entity bs fields userId) row := by
      rintro ⟨node, hnode, _⟩
      rw [buildAbacNode, if_pos (validScopesCount_eq_zero.mpr hlive)] at hnode
      cases hnode
    exact ⟨fun h => absurd h herror, fun h => absurd hlive h.live⟩
  have hboth : NodeAccepts (buildAbacNode entity bs fields userId) row ↔
      (∀ n ∈ locNode entity (consolidate bs), n.Holds row) ∧
        ∀ n ∈ scopeNode fields userId (consolidate bs).scope, n.Holds row := by
    rw [NodeAccepts, buildAbacNode, if_neg fun h => hlive (validScopesCount_eq_zero.mp h)]
    cases locNode entity (consolidate bs) <;>
      cases scopeNode fields userId (consolidate bs).scope <;>
        simp [WhereNode.Holds, WhereNode.HoldAll]
  rw [hboth, locNode_holds, scopeNode_holds (scope_ne_none _)]
  exact ⟨fun ⟨hloc, hpass⟩ => ⟨hlive, hpass, hloc⟩, fun ⟨_, hpass, hloc⟩ => ⟨hloc, hpass⟩⟩

/-! ### Soundness -/

/-- For every entity but `tenant`, each compiler lets through what a boundary admits; it lets
through no other row, plain for the filters of requests, exactly for sound boundaries. -/
theorem row_security_iff [TextSearch] (isMaster : Bool) {entity : String}
    (hentity : entity ≠ "tenant") (boundaries : List JsonValue) (fields : OwnershipFields) :
    ((∀ userId row, (∃ b ∈ boundaries.map (readBoundary fbsKeys), b.Admits entity fields userId row) →
        evalAll row (abacFilters isMaster entity (boundaries.map (readBoundary fbsKeys)) fields userId) = true) ∧
      ((∀ userId row, PlainRow entity (boundaries.map (readBoundary fbsKeys)) fields row →
        evalAll row (abacFilters isMaster entity (boundaries.map (readBoundary fbsKeys)) fields userId) = true →
        ∃ b ∈ boundaries.map (readBoundary fbsKeys), b.Admits entity fields userId row) ↔
          Sound (boundaries.map (readBoundary fbsKeys)) fields)) ∧
    (∀ userId row, (∃ b ∈ boundaries.map (readBoundary nodeKeys), b.Admits entity fields userId row) →
        NodeAccepts (buildAbacNode entity (boundaries.map (readBoundary nodeKeys)) fields userId) row) ∧
      ((∀ userId row,
        NodeAccepts (buildAbacNode entity (boundaries.map (readBoundary nodeKeys)) fields userId) row →
        ∃ b ∈ boundaries.map (readBoundary nodeKeys), b.Admits entity fields userId row) ↔
          Sound (boundaries.map (readBoundary nodeKeys)) fields) := by
  refine ⟨⟨?_, ?_, ?_⟩, ?_, ?_, ?_⟩
  · rintro userId row ⟨b, hb, hadmits⟩
    exact accepts_of_letsThrough (letsThrough_of_admits hb hadmits)
  · intro h
    apply sound_of_admits
    exact fun userId row hplain hthrough => h userId row hplain (accepts_of_letsThrough hthrough)
  · intro h userId row hplain haccepts
    exact h.admits (letsThrough_of_accepts (fun _ htenant => hentity htenant.1) hplain haccepts)
  · rintro userId row ⟨b, hb, hadmits⟩
    exact nodeAccepts_iff.mpr (letsThrough_of_admits hb hadmits)
  · intro h
    apply sound_of_admits
    exact fun userId row _ hthrough => h userId row (nodeAccepts_iff.mpr hthrough)
  · intro h userId row haccepts
    exact h.admits (nodeAccepts_iff.mp haccepts)

/-- Own tasks at the plant, and all tasks at the dock. -/
def plantAndDock : List JsonValue := [boundaryJson "OWN" ["plant"] [], boundaryJson "ALL" ["dock"] []]

def taskFields : OwnershipFields := { ownerField := some "task/owner" }

def ownTask : JsonMap :=
  ((∅ : JsonMap).insert "task/owner" (.string "ana")).insert "task/location_id" (.string "plant")

theorem own_tasks_at_the_plant :
    ∃ b ∈ [Boundary.mk "OWN" (some ["plant"])], b.Admits "task" taskFields "ana" ownTask := by
  have hiff := @row_security_iff plainSearch false "task" (by decide)
    [boundaryJson "OWN" ["plant"] []] taskFields
  have hbs : [boundaryJson "OWN" ["plant"] []].map (readBoundary fbsKeys) =
      [⟨"OWN", some ["plant"]⟩] := by decide +kernel
  have hplain : PlainRow "task" [⟨"OWN", some ["plant"]⟩] taskFields ownTask :=
    { owner := by decide +kernel
      assignee := by decide
      location := .inr (by decide)
      tenant := by decide +kernel }
  rw [hbs] at hiff
  exact hiff.1.2.mpr (by decide +kernel) "ana" ownTask hplain (by decide +kernel)

/-- With both boundaries the filters let through a task at the plant that is another's: the
scope is that of the dock, and the plant is among the locations. -/
theorem anothers_task_at_the_plant : ¬ ∀ (boundaries : List JsonValue) fields userId row,
    @evalAll plainSearch row
      (abacFilters false "task" (boundaries.map (readBoundary fbsKeys)) fields userId) = true →
    ∃ b ∈ boundaries.map (readBoundary fbsKeys), b.Admits "task" fields userId row := by
  intro h
  let row : JsonMap := ((∅ : JsonMap).insert "task/owner" (.string "bob")).insert "task/location_id"
    (.string "plant")
  obtain ⟨b, hb, hscope, hholds, hloc⟩ := h plantAndDock taskFields "ana" row (by decide +kernel)
  have howned : ¬ OwnedBy taskFields "ana" row := by
    rintro ⟨f, hf, hval⟩
    cases hf
    revert hval
    decide +kernel
  have hbs : plantAndDock.map (readBoundary fbsKeys) = [⟨"OWN", some ["plant"]⟩, ⟨"ALL", some ["dock"]⟩] := by
    decide +kernel
  rw [hbs] at hb
  simp only [List.mem_cons, List.not_mem_nil, or_false] at hb
  rcases hb with rfl | rfl
  · rcases hholds with h | ⟨_, h⟩ | ⟨h, _⟩ | ⟨h, _⟩
    · exact absurd h (by decide)
    · exact howned h
    · exact absurd h (by decide)
    · exact absurd h (by decide)
  · obtain ⟨loc, hin, hval⟩ := hloc ["dock"] rfl
    cases List.mem_singleton.mp hin
    revert hval
    decide +kernel

end MetriEngine.Janus
