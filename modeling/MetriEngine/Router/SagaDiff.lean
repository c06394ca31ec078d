import MetriEngine.Eav.Reader

/-!
# Reconciling the jobs of a saga

An update of a parent entity projects the jobs it wants and compares them with those that
live, by the hash of their content. What is missing is created, what is not wanted any
more is deleted, and a job whose cycle is still open gets the status of its parent.
-/
namespace MetriEngine.Router
open Foundation Storage Eav

/-! ### Jobs -/

structure SagaProjection where
  entityType : String
  entityId : String
  attrs : EntityMap

structure LiveSagaJob where
  jobId : String
  idempotencyHash : Option String
  status : String
deriving DecidableEq

structure SagaReconciliation where
  toCreate : List SagaProjection := []
  toDelete : List String := []
  toRestatus : List (String × String) := []

def textOf : Option DatomValue → Option String
  | some (.str s) => some s
  | _ => none

def projectionHash (p : SagaProjection) : Option String := textOf (p.attrs.lookup "idempotency_hash")

/-- The status that the health of the parent gives its jobs. -/
def desiredJobStatus (motherStatus : Option String) : String :=
  if motherStatus.all fun s => decide (s = "ACTIVE") then "ACTIVE" else "SUSPENDED"

/-- `"ACTIVE" | "SUSPENDED" | "PENDING"` -/
def OpenCycle (status : String) : Prop := status = "ACTIVE" ∨ status = "SUSPENDED" ∨ status = "PENDING"

instance (status : String) : Decidable (OpenCycle status) :=
  inferInstanceAs (Decidable (_ ∨ _ ∨ _))

/-- A job that ran to its end. -/
def ClosedCycle (status : String) : Prop := status = "COMPLETED" ∨ status = "FAILED"

theorem ClosedCycle.not_open {status : String} (h : ClosedCycle status) : ¬ OpenCycle status := by
  rcases h with rfl | rfl <;> decide

/-! ### The difference -/

/-- The pass over the live jobs: the hashes that no job has taken, and what is to be done. -/
structure Scan where
  pending : Finset String
  toDelete : List String
  toRestatus : List (String × String)

def scanJobs (desiredStatus : String) : Finset String → List LiveSagaJob → Scan
  | pending, [] => ⟨pending, [], []⟩
  | pending, job :: rest =>
    match job.idempotencyHash with
    -- a job without a hash has no identity to compare: it is kept
    | none => scanJobs desiredStatus pending rest
    | some hash =>
      if hash ∈ pending then
        let scan := scanJobs desiredStatus (pending.erase hash) rest
        if OpenCycle job.status ∧ job.status ≠ desiredStatus then
          { scan with toRestatus := (job.jobId, desiredStatus) :: scan.toRestatus }
        else scan
      else
        let scan := scanJobs desiredStatus pending rest
        { scan with toDelete := job.jobId :: scan.toDelete }

def desiredHashes (desired : List SagaProjection) : Finset String :=
  (desired.filterMap projectionHash).toFinset

def diffSagas (desired : List SagaProjection) (live : List LiveSagaJob) (desiredStatus : String) :
    SagaReconciliation :=
  let scan := scanJobs desiredStatus (desiredHashes desired) live
  { toCreate := desired.filter fun p => (projectionHash p).any fun h => decide (h ∈ scan.pending)
    toDelete := scan.toDelete
    toRestatus := scan.toRestatus }

def SagaProjection.withStatus (status : String) (p : SagaProjection) : SagaProjection :=
  { p with attrs := p.attrs.insert "status" (.str status) }

@[simp] theorem projectionHash_withStatus (status : String) (p : SagaProjection) :
    projectionHash (p.withStatus status) = projectionHash p := by
  rw [projectionHash, SagaProjection.withStatus, OrdMap.lookup_insert_of_ne _ _ (by decide)]
  rfl

/-- `plan_saga_reconciliation`, from the projections of the merged state on: each gets the
status that the parent dictates. -/
def planSagas (projected : List SagaProjection) (live : List LiveSagaJob)
    (motherStatus : Option String) : SagaReconciliation :=
  let status := desiredJobStatus motherStatus
  diffSagas (projected.map (SagaProjection.withStatus status)) live status

/-! ### Its application -/

/-- A projection once it is stored, as the jobs of a parent are listed. -/
def SagaProjection.born (p : SagaProjection) : LiveSagaJob :=
  ⟨p.entityId, projectionHash p, (textOf (p.attrs.lookup "status")).getD ""⟩

@[simp] theorem born_withStatus (status : String) (p : SagaProjection) :
    (p.withStatus status).born = ⟨p.entityId, projectionHash p, status⟩ := by
  rw [SagaProjection.born, projectionHash_withStatus, SagaProjection.withStatus,
    OrdMap.lookup_insert_self]
  rfl

def restatus (jobs : List LiveSagaJob) (entry : String × String) : List LiveSagaJob :=
  jobs.map fun job => if job.jobId = entry.1 then { job with status := entry.2 } else job

/-- The creations commit with the parent; then the statuses change, and then jobs go. -/
def applyReconciliation (recon : SagaReconciliation) (live : List LiveSagaJob) : List LiveSagaJob :=
  recon.toDelete.foldl (fun jobs id => jobs.filter fun job => decide (job.jobId ≠ id))
    (recon.toRestatus.foldl restatus (live ++ recon.toCreate.map SagaProjection.born))

/-! ### What the application leaves of the live jobs -/

/-- The live jobs after the changes: one that takes a pending hash stays, with the desired
status where its cycle is open, and one that finds its hash taken goes. -/
def settled (desiredStatus : String) : Finset String → List LiveSagaJob → List LiveSagaJob
  | _, [] => []
  | pending, job :: rest =>
    match job.idempotencyHash with
    | none => job :: settled desiredStatus pending rest
    | some hash =>
      if hash ∈ pending then
        (if OpenCycle job.status then { job with status := desiredStatus } else job) ::
          settled desiredStatus (pending.erase hash) rest
      else settled desiredStatus pending rest

section Apply
variable {s : String} {pending : Finset String} {live : List LiveSagaJob}

theorem foldl_delete (ids : List String) (jobs : List LiveSagaJob) :
    ids.foldl (fun jobs id => jobs.filter fun job => decide (job.jobId ≠ id)) jobs =
      jobs.filter fun job => decide (job.jobId ∉ ids) := by
  induction ids generalizing jobs with
  | nil => simp
  | cons id rest ih =>
    rw [List.foldl_cons, ih, List.filter_filter]
    apply List.filter_congr
    intro job _
    by_cases hid : job.jobId = id <;> simp [hid]

theorem foldl_restatus {entries : List (String × String)} (h : ∀ e ∈ entries, e.2 = s)
    (jobs : List LiveSagaJob) :
    entries.foldl restatus jobs = jobs.map fun job =>
      if job.jobId ∈ entries.map Prod.fst then { job with status := s } else job := by
  induction entries generalizing jobs with
  | nil => simp
  | cons e rest ih =>
    have he : e.2 = s := h e List.mem_cons_self
    rw [List.foldl_cons, ih fun e' he' => h e' (List.mem_cons_of_mem _ he'), restatus, List.map_map]
    apply List.map_congr_left
    intro job _
    by_cases hid : job.jobId = e.1
    · simp [hid, he]
    · rw [Function.comp_apply, if_neg hid]
      simp only [List.map_cons, List.mem_cons, hid, false_or]

theorem toDelete_subset : ∀ id ∈ (scanJobs s pending live).toDelete, id ∈ live.map LiveSagaJob.jobId := by
  induction live generalizing pending with
  | nil => simp [scanJobs]
  | cons job rest ih =>
    intro id hid
    unfold scanJobs at hid
    cases hhash : job.idempotencyHash with
    | none =>
      rw [hhash] at hid
      exact List.mem_cons_of_mem _ (ih id hid)
    | some hash =>
      rw [hhash] at hid
      dsimp only at hid
      split_ifs at hid
      · exact List.mem_cons_of_mem _ (ih id hid)
      · exact List.mem_cons_of_mem _ (ih id hid)
      · rcases List.mem_cons.mp hid with rfl | hid
        · exact List.mem_cons_self
        · exact List.mem_cons_of_mem _ (ih id hid)

theorem toRestatus_subset : ∀ e ∈ (scanJobs s pending live).toRestatus,
    e.1 ∈ live.map LiveSagaJob.jobId ∧ e.2 = s := by
  induction live generalizing pending with
  | nil => simp [scanJobs]
  | cons job rest ih =>
    intro e he
    unfold scanJobs at he
    cases hhash : job.idempotencyHash with
    | none =>
      rw [hhash] at he
      exact (ih e he).imp_left (List.mem_cons_of_mem _)
    | some hash =>
      rw [hhash] at he
      dsimp only at he
      split_ifs at he
      · rcases List.mem_cons.mp he with rfl | he
        · exact ⟨List.mem_cons_self, rfl⟩
        · exact (ih e he).imp_left (List.mem_cons_of_mem _)
      · exact (ih e he).imp_left (List.mem_cons_of_mem _)
      · exact (ih e he).imp_left (List.mem_cons_of_mem _)

/-- A live job as a pass leaves its status. -/
def Scan.touch (scan : Scan) (s : String) (job : LiveSagaJob) : LiveSagaJob :=
  if job.jobId ∈ scan.toRestatus.map Prod.fst then { job with status := s } else job

/-- The live jobs after the statuses and deletions of a pass. -/
def Scan.leaves (scan : Scan) (s : String) (jobs : List LiveSagaJob) : List LiveSagaJob :=
  (jobs.map (scan.touch s)).filter fun job => decide (job.jobId ∉ scan.toDelete)

theorem Scan.touch_jobId (scan : Scan) (job : LiveSagaJob) : (scan.touch s job).jobId = job.jobId := by
  unfold Scan.touch
  split_ifs <;> rfl

theorem Scan.leaves_congr {scan scan' : Scan} {jobs : List LiveSagaJob}
    (hD : ∀ job ∈ jobs, job.jobId ∈ scan.toDelete ↔ job.jobId ∈ scan'.toDelete)
    (hR : ∀ job ∈ jobs, job.jobId ∈ scan.toRestatus.map Prod.fst ↔
      job.jobId ∈ scan'.toRestatus.map Prod.fst) : scan.leaves s jobs = scan'.leaves s jobs := by
  have hmap : jobs.map (scan.touch s) = jobs.map (scan'.touch s) := by
    apply List.map_congr_left
    intro job hjob
    simp only [Scan.touch, hR job hjob]
  rw [Scan.leaves, Scan.leaves, hmap]
  apply List.filter_congr
  intro job hjob
  obtain ⟨old, hold, rfl⟩ := List.mem_map.mp hjob
  rw [Scan.touch_jobId, decide_eq_decide, not_iff_not]
  exact hD old hold

/-- A pass leaves what is settled. -/
theorem leaves_scanJobs (hids : (live.map LiveSagaJob.jobId).Nodup) :
    (scanJobs s pending live).leaves s live = settled s pending live := by
  induction live generalizing pending with
  | nil => rfl
  | cons job rest ih =>
    rw [List.map_cons, List.nodup_cons] at hids
    -- the entries of the rest do not name the first job, nor its entry a job of the rest
    have hdelete {P : Finset String} : job.jobId ∉ (scanJobs s P rest).toDelete :=
      fun h => hids.1 (toDelete_subset _ h)
    have hrestatus {P : Finset String} : job.jobId ∉ (scanJobs s P rest).toRestatus.map Prod.fst := by
      intro h
      obtain ⟨e, he, hid⟩ := List.mem_map.mp h
      exact hids.1 (hid ▸ (toRestatus_subset e he).1)
    have hne {job' : LiveSagaJob} (h : job' ∈ rest) : job'.jobId ≠ job.jobId :=
      fun heq => hids.1 (heq ▸ List.mem_map_of_mem h)
    have hkept (P : Finset String) : (scanJobs s P rest).leaves s (job :: rest) =
        job :: settled s P rest := by
      rw [← ih hids.2, Scan.leaves, List.map_cons, Scan.touch, if_neg hrestatus,
        List.filter_cons_of_pos (by simpa using hdelete)]
      rfl
    cases hhash : job.idempotencyHash with
    | none => simp only [scanJobs, settled, hhash, hkept]
    | some hash =>
      by_cases hpending : hash ∈ pending
      · simp only [scanJobs, settled, hhash, if_pos hpending]
        by_cases hopen : OpenCycle job.status ∧ job.status ≠ s
        · rw [if_pos hopen, if_pos hopen.1, ← ih hids.2, Scan.leaves, List.map_cons, Scan.touch,
            if_pos (by simp), List.filter_cons_of_pos (by simpa using hdelete)]
          congr 1
          · rw [hhash]
          · apply Scan.leaves_congr
            · exact fun _ _ => Iff.rfl
            · intro job' hjob'
              simp [hne hjob']
        · rw [if_neg hopen, hkept]
          congr 1
          split_ifs with hcycle
          · have hstatus : job.status = s := by
              by_contra hstatus
              exact hopen ⟨hcycle, hstatus⟩
            rw [← hstatus, ← hhash]
          · rfl
      · simp only [scanJobs, settled, hhash, if_neg hpending]
        rw [← ih hids.2, Scan.leaves, List.map_cons, List.filter_cons_of_neg]
        · apply Scan.leaves_congr
          · intro job' hjob'
            simp [hne hjob']
          · exact fun _ _ => Iff.rfl
        · simp [Scan.touch_jobId]

theorem scanJobs_pending : (scanJobs s pending live).pending =
    pending.filter fun h => ∀ job ∈ live, job.idempotencyHash ≠ some h := by
  induction live generalizing pending with
  | nil => simp [scanJobs]
  | cons job rest ih =>
    cases hhash : job.idempotencyHash with
    | none =>
      simp only [scanJobs, hhash, ih]
      ext h
      simp [hhash]
    | some hash =>
      by_cases hpending : hash ∈ pending
      · simp only [scanJobs, hhash, if_pos hpending]
        have herase : (scanJobs s (pending.erase hash) rest).pending =
            pending.filter fun h => ∀ job' ∈ job :: rest, job'.idempotencyHash ≠ some h := by
          rw [ih]
          ext h
          simp only [Finset.mem_filter, Finset.mem_erase, List.forall_mem_cons, hhash, ne_eq,
            Option.some.injEq, eq_comm (a := hash)]
          tauto
        split_ifs
        · exact herase
        · exact herase
      · simp only [scanJobs, hhash, if_neg hpending, ih]
        ext h
        simp only [Finset.mem_filter, List.forall_mem_cons, hhash, ne_eq, Option.some.injEq]
        constructor
        · rintro ⟨hmem, hall⟩
          exact ⟨hmem, fun heq => hpending (heq ▸ hmem), hall⟩
        · rintro ⟨hmem, _, hall⟩
          exact ⟨hmem, hall⟩

/-! ### What is settled -/

theorem jobId_of_settled {job : LiveSagaJob} (h : job ∈ settled s pending live) :
    ∃ old ∈ live, old.jobId = job.jobId ∧ old.idempotencyHash = job.idempotencyHash := by
  induction live generalizing pending with
  | nil => cases h
  | cons first rest ih =>
    have hrest {P : Finset String} (h : job ∈ settled s P rest) :
        ∃ old ∈ first :: rest, old.jobId = job.jobId ∧ old.idempotencyHash = job.idempotencyHash := by
      obtain ⟨old, hold, hsame⟩ := ih h
      exact ⟨old, List.mem_cons_of_mem _ hold, hsame⟩
    unfold settled at h
    split at h
    · rcases List.mem_cons.mp h with rfl | h
      · exact ⟨job, List.mem_cons_self, rfl, rfl⟩
      · exact hrest h
    · split_ifs at h
      · rcases List.mem_cons.mp h with rfl | h
        · exact ⟨first, List.mem_cons_self, rfl, rfl⟩
        · exact hrest h
      · rcases List.mem_cons.mp h with rfl | h
        · exact ⟨job, List.mem_cons_self, rfl, rfl⟩
        · exact hrest h
      · exact hrest h

/-- A job that stays with a hash took it while it was pending, and has the desired status
if its cycle is open. -/
theorem settled_hash {job : LiveSagaJob} {h : String} (hjob : job ∈ settled s pending live)
    (hhash : job.idempotencyHash = some h) : h ∈ pending ∧ (OpenCycle job.status → job.status = s) := by
  induction live generalizing pending with
  | nil => cases hjob
  | cons first rest ih =>
    unfold settled at hjob
    split at hjob
    · rename_i hnone
      rcases List.mem_cons.mp hjob with rfl | hjob
      · rw [hnone] at hhash
        cases hhash
      · exact ih hjob
    · rename_i hash hfirst
      split_ifs at hjob with hpending hopen
      · rcases List.mem_cons.mp hjob with rfl | hjob
        · obtain rfl : hash = h := Option.some.inj (hfirst.symm.trans hhash)
          exact ⟨hpending, fun _ => rfl⟩
        · exact (ih hjob).imp_left Finset.mem_of_mem_erase
      · rcases List.mem_cons.mp hjob with rfl | hjob
        · obtain rfl : hash = h := Option.some.inj (hfirst.symm.trans hhash)
          exact ⟨hpending, fun h => absurd h hopen⟩
        · exact (ih hjob).imp_left Finset.mem_of_mem_erase
      · exact ih hjob

/-- Two jobs that are not of one hash. -/
def DistinctHash (a b : LiveSagaJob) : Prop :=
  a.idempotencyHash = none ∨ a.idempotencyHash ≠ b.idempotencyHash

instance : Std.Symm DistinctHash where
  symm a b hab := by
    rcases hab with hnone | hne
    · by_cases hb : b.idempotencyHash = none
      · exact Or.inl hb
      · exact Or.inr fun heq => hb (heq.trans hnone)
    · exact Or.inr (Ne.symm hne)

/-- No two of the jobs that stay have one hash. -/
theorem settled_distinct : (settled s pending live).Pairwise DistinctHash := by
  induction live generalizing pending with
  | nil => exact List.Pairwise.nil
  | cons first rest ih =>
    unfold settled
    split
    · rename_i hnone
      exact List.pairwise_cons.mpr ⟨fun b _ => Or.inl hnone, ih⟩
    · rename_i hash hfirst
      split_ifs with hpending hopen
      · refine List.pairwise_cons.mpr ⟨fun b hb => Or.inr ?_, ih⟩
        intro heq
        exact Finset.notMem_erase hash pending (settled_hash hb (heq.symm.trans hfirst)).1
      · refine List.pairwise_cons.mpr ⟨fun b hb => Or.inr ?_, ih⟩
        intro heq
        exact Finset.notMem_erase hash pending (settled_hash hb (heq.symm.trans hfirst)).1
      · exact ih

/-- A pending hash that a live job has is taken by one. -/
theorem exists_settled {job : LiveSagaJob} {h : String} (hjob : job ∈ live)
    (hhash : job.idempotencyHash = some h) (hpending : h ∈ pending) :
    ∃ job' ∈ settled s pending live, job'.idempotencyHash = some h := by
  induction live generalizing pending with
  | nil => cases hjob
  | cons first rest ih =>
    cases hfirst : first.idempotencyHash with
    | none =>
      rcases List.mem_cons.mp hjob with rfl | hjob
      · rw [hfirst] at hhash
        cases hhash
      · obtain ⟨job', hjob', hsame⟩ := ih hjob hpending
        exact ⟨job', by simp only [settled, hfirst]; exact List.mem_cons_of_mem _ hjob', hsame⟩
    | some hash =>
      by_cases hsame : hash = h
      · subst hsame
        simp only [settled, hfirst, if_pos hpending]
        refine ⟨_, List.mem_cons_self, ?_⟩
        split_ifs
        · rfl
        · exact hfirst
      · have hrest : job ∈ rest := by
          rcases List.mem_cons.mp hjob with rfl | hjob
          · exact absurd (Option.some.inj (hfirst.symm.trans hhash)) hsame
          · exact hjob
        simp only [settled, hfirst]
        by_cases hmem : hash ∈ pending
        · rw [if_pos hmem]
          obtain ⟨job', hjob', heq⟩ := ih hrest (Finset.mem_erase.mpr ⟨Ne.symm hsame, hpending⟩)
          exact ⟨job', List.mem_cons_of_mem _ hjob', heq⟩
        · rw [if_neg hmem]
          exact ih hrest hpending

/-- Every job that ran to its end wants a hash that is desired, and is the first to have it. -/
def ClosedKept (pending : Finset String) (live : List LiveSagaJob) : Prop :=
  ∀ before job after, live = before ++ job :: after → ClosedCycle job.status →
    ∀ h, job.idempotencyHash = some h → h ∈ pending ∧ ∀ other ∈ before, other.idempotencyHash ≠ some h

theorem closedKept_cons {first : LiveSagaJob} {rest : List LiveSagaJob} :
    ClosedKept pending (first :: rest) ↔
      (ClosedCycle first.status → ∀ h, first.idempotencyHash = some h → h ∈ pending) ∧
        ∀ before job after, rest = before ++ job :: after → ClosedCycle job.status →
          ∀ h, job.idempotencyHash = some h → h ∈ pending ∧ first.idempotencyHash ≠ some h ∧
            ∀ other ∈ before, other.idempotencyHash ≠ some h := by
  constructor
  · intro hkept
    constructor
    · intro hclosed h hhash
      exact (hkept [] first rest rfl hclosed h hhash).1
    · intro before job after hrest hclosed h hhash
      obtain ⟨hpending, hbefore⟩ := hkept (first :: before) job after (by rw [hrest]; rfl) hclosed h hhash
      exact ⟨hpending, hbefore first List.mem_cons_self,
        fun other hother => hbefore other (List.mem_cons_of_mem _ hother)⟩
  · rintro ⟨hfirst, hrest⟩ before job after heq hclosed h hhash
    cases before with
    | nil =>
      obtain ⟨rfl, _⟩ := List.cons_eq_cons.mp heq
      exact ⟨hfirst hclosed h hhash, by simp⟩
    | cons b before =>
      rw [List.cons_append] at heq
      obtain ⟨rfl, htail⟩ := List.cons_eq_cons.mp heq
      obtain ⟨hpending, hb, hbefore⟩ := hrest before job after htail hclosed h hhash
      exact ⟨hpending, List.forall_mem_cons.mpr ⟨hb, hbefore⟩⟩

/-- The jobs that ran to their end stay exactly where each is the first to have a desired
hash. -/
theorem closed_settled_iff {s : String} {P : Finset String} {live : List LiveSagaJob} (hids : (live.map LiveSagaJob.jobId).Nodup) :
    (∀ job ∈ live, ClosedCycle job.status → job ∈ settled s P live) ↔ ClosedKept P live := by
  induction live generalizing P with
  | nil => simp [ClosedKept]
  | cons first rest ih =>
    rw [List.map_cons, List.nodup_cons] at hids
    have hother {job : LiveSagaJob} {P : Finset String} (h : job ∈ settled s P rest) :
        job.jobId ≠ first.jobId := by
      obtain ⟨old, hold, hid, _⟩ := jobId_of_settled h
      exact fun heq => hids.1 (heq ▸ hid ▸ List.mem_map_of_mem hold)
    have hkept {P : Finset String} {first' : LiveSagaJob} (hid : first'.jobId = first.jobId)
        (hsame : ClosedCycle first.status → first' = first) :
        (∀ job ∈ first :: rest, ClosedCycle job.status → job ∈ first' :: settled s P rest) ↔
          ClosedKept P rest := by
      rw [← ih hids.2, List.forall_mem_cons]
      constructor
      · rintro ⟨_, hrest⟩ job hjob hclosed
        rcases List.mem_cons.mp (hrest job hjob hclosed) with rfl | hmem
        · exact absurd (hid ▸ List.mem_map_of_mem hjob) hids.1
        · exact hmem
      · intro hrest
        constructor
        · intro hclosed
          rw [hsame hclosed]
          exact List.mem_cons_self
        · intro job hjob hclosed
          exact List.mem_cons_of_mem _ (hrest job hjob hclosed)
    rw [closedKept_cons]
    cases hfirst : first.idempotencyHash with
    | none =>
      simp only [settled, hfirst, hkept rfl fun _ => rfl]
      simp [ClosedKept]
    | some hash =>
      by_cases hpending : hash ∈ P
      · simp only [settled, hfirst, if_pos hpending]
        rw [hkept]
        · simp only [ClosedKept, Finset.mem_erase, Option.some.injEq, ne_eq]
          constructor
          · intro hrest
            refine ⟨fun _ h heq => heq ▸ hpending, ?_⟩
            intro before job after heq hclosed h hhash
            obtain ⟨⟨hne, hmem⟩, hbefore⟩ := hrest before job after heq hclosed h hhash
            exact ⟨hmem, Ne.symm hne, hbefore⟩
          · rintro ⟨_, hrest⟩ before job after heq hclosed h hhash
            obtain ⟨hmem, hne, hbefore⟩ := hrest before job after heq hclosed h hhash
            exact ⟨⟨Ne.symm hne, hmem⟩, hbefore⟩
        · split_ifs <;> rfl
        · intro hclosed
          rw [if_neg hclosed.not_open]
      · simp only [settled, hfirst, if_neg hpending]
        constructor
        · intro hall
          obtain ⟨hclosed, hrest⟩ := List.forall_mem_cons.mp hall
          refine ⟨fun h => absurd rfl (hother (hclosed h)), ?_⟩
          intro before job after heq hcycle h hhash
          obtain ⟨hmem, hbefore⟩ := (ih hids.2).mp hrest before job after heq hcycle h hhash
          exact ⟨hmem, fun heq => hpending (Option.some.inj heq ▸ hmem), hbefore⟩
        · rintro ⟨hclosed, hrest⟩
          rw [List.forall_mem_cons]
          constructor
          · intro h
            exact absurd (hclosed h hash rfl) hpending
          · apply (ih hids.2).mpr
            intro before job after heq hcycle h hhash
            obtain ⟨hmem, _, hbefore⟩ := hrest before job after heq hcycle h hhash
            exact ⟨hmem, hbefore⟩

end Apply

/-! ### Convergence -/

section Converge
variable {projected : List SagaProjection} {live : List LiveSagaJob} {motherStatus : Option String}

/-- The jobs that a parent with these projections is left with. -/
def reconciled (projected : List SagaProjection) (live : List LiveSagaJob)
    (motherStatus : Option String) : List LiveSagaJob :=
  applyReconciliation (planSagas projected live motherStatus) live

/-- Whether no live job has the hash of a projection. -/
def Missing (live : List LiveSagaJob) (p : SagaProjection) : Prop :=
  ∃ h, projectionHash p = some h ∧ ∀ job ∈ live, job.idempotencyHash ≠ some h

theorem desiredHashes_withStatus (status : String) (projected : List SagaProjection) :
    desiredHashes (projected.map (SagaProjection.withStatus status)) = desiredHashes projected := by
  rw [desiredHashes, List.filterMap_map]
  congr 2
  funext p
  exact projectionHash_withStatus status p

theorem mem_desiredHashes {h : String} :
    h ∈ desiredHashes projected ↔ ∃ p ∈ projected, projectionHash p = some h := by
  simp [desiredHashes]

instance (live : List LiveSagaJob) (p : SagaProjection) : Decidable (Missing live p) :=
  decidable_of_iff ((projectionHash p).any fun h =>
    decide (∀ job ∈ live, job.idempotencyHash ≠ some h)) (by simp [Missing, Option.any_eq_true])

/-- The job of a new projection. -/
def SagaProjection.newborn (status : String) (p : SagaProjection) : LiveSagaJob :=
  ⟨p.entityId, projectionHash p, status⟩

/-- What was not settled is born with the status of the parent. -/
theorem reconciled_eq (hids : (live.map LiveSagaJob.jobId ++
    projected.map SagaProjection.entityId).Nodup) : reconciled projected live motherStatus =
      settled (desiredJobStatus motherStatus) (desiredHashes projected) live ++
        (projected.filter fun p => decide (Missing live p)).map
          (SagaProjection.newborn (desiredJobStatus motherStatus)) := by
  obtain ⟨hlive, _, hfresh⟩ := List.nodup_append.mp hids
  have hleaves : (scanJobs (desiredJobStatus motherStatus) (desiredHashes projected) live).leaves
      (desiredJobStatus motherStatus) live = _ := leaves_scanJobs hlive
  -- a new id is named by neither of the other two changes
  have huntouched {p : SagaProjection} (hp : p ∈ projected) :
      p.entityId ∉ (scanJobs (desiredJobStatus motherStatus) (desiredHashes projected)
          live).toRestatus.map Prod.fst ∧
        p.entityId ∉ (scanJobs (desiredJobStatus motherStatus) (desiredHashes projected)
          live).toDelete := by
    have hnew : p.entityId ∉ live.map LiveSagaJob.jobId :=
      fun hmem => hfresh _ hmem _ (List.mem_map_of_mem hp) rfl
    constructor
    · intro h
      obtain ⟨e, he, hid⟩ := List.mem_map.mp h
      exact hnew (hid ▸ (toRestatus_subset e he).1)
    · intro h
      exact hnew (toDelete_subset _ h)
  have hcreated : (projected.map (SagaProjection.withStatus (desiredJobStatus motherStatus))).filter
      (fun p => (projectionHash p).any fun h => decide (h ∈ (scanJobs (desiredJobStatus motherStatus)
        (desiredHashes projected) live).pending)) =
      (projected.filter fun p => decide (Missing live p)).map
        (SagaProjection.withStatus (desiredJobStatus motherStatus)) := by
    rw [List.filter_map]
    congr 1
    apply List.filter_congr
    intro p hp
    rw [Function.comp_apply, projectionHash_withStatus, scanJobs_pending, Bool.eq_iff_iff,
      Option.any_eq_true, decide_eq_true_eq, Missing]
    constructor
    · rintro ⟨h, hhash, hmem⟩
      exact ⟨h, hhash, (Finset.mem_filter.mp (of_decide_eq_true hmem)).2⟩
    · rintro ⟨h, hhash, hmissing⟩
      exact ⟨h, hhash, decide_eq_true (Finset.mem_filter.mpr
        ⟨mem_desiredHashes.mpr ⟨p, hp, hhash⟩, hmissing⟩)⟩
  unfold reconciled applyReconciliation planSagas diffSagas
  dsimp only
  rw [foldl_delete, foldl_restatus fun e he => (toRestatus_subset e he).2, desiredHashes_withStatus,
    hcreated, List.map_append, List.filter_append, ← hleaves, List.map_map, List.map_map]
  congr 1
  have hborn : ∀ p ∈ projected.filter fun p => decide (Missing live p),
      (((fun job : LiveSagaJob => if job.jobId ∈ (scanJobs (desiredJobStatus motherStatus)
          (desiredHashes projected) live).toRestatus.map Prod.fst then
          { job with status := desiredJobStatus motherStatus } else job) ∘ SagaProjection.born) ∘
        SagaProjection.withStatus (desiredJobStatus motherStatus)) p =
      p.newborn (desiredJobStatus motherStatus) := by
    intro p hp
    rw [Function.comp_apply, Function.comp_apply, born_withStatus,
      if_neg (huntouched (List.mem_filter.mp hp).1).1]
    rfl
  rw [List.map_congr_left hborn]
  apply List.filter_eq_self.mpr
  intro job hjob
  obtain ⟨p, hp, rfl⟩ := List.mem_map.mp hjob
  exact decide_eq_true (huntouched (List.mem_filter.mp hp).1).2

theorem mem_reconciled (hids : (live.map LiveSagaJob.jobId ++
    projected.map SagaProjection.entityId).Nodup) {job : LiveSagaJob} :
    job ∈ reconciled projected live motherStatus ↔
      job ∈ settled (desiredJobStatus motherStatus) (desiredHashes projected) live ∨
        ∃ p ∈ projected, Missing live p ∧ p.newborn (desiredJobStatus motherStatus) = job := by
  rw [reconciled_eq hids, List.mem_append, List.mem_map]
  simp [and_assoc]

/-- A difference that asks for nothing. -/
def SagaReconciliation.Empty (recon : SagaReconciliation) : Prop :=
  recon.toCreate = [] ∧ recon.toDelete = [] ∧ recon.toRestatus = []

/-- Jobs with different hashes, all pending and with the desired status, ask for nothing. -/
theorem scanJobs_quiet {s : String} {pending : Finset String} {jobs : List LiveSagaJob}
    (hdistinct : jobs.Pairwise DistinctHash)
    (hjobs : ∀ job ∈ jobs, ∀ h, job.idempotencyHash = some h →
      h ∈ pending ∧ (OpenCycle job.status → job.status = s)) :
    (scanJobs s pending jobs).toDelete = [] ∧ (scanJobs s pending jobs).toRestatus = [] := by
  induction jobs generalizing pending with
  | nil => exact ⟨rfl, rfl⟩
  | cons job rest ih =>
    obtain ⟨hfirst, hrest⟩ := List.pairwise_cons.mp hdistinct
    obtain ⟨hjob, hjobs⟩ := List.forall_mem_cons.mp hjobs
    cases hhash : job.idempotencyHash with
    | none =>
      simp only [scanJobs, hhash]
      exact ih hrest hjobs
    | some hash =>
      obtain ⟨hmem, hstatus⟩ := hjob hash hhash
      have hopen : ¬ (OpenCycle job.status ∧ job.status ≠ s) := fun h => h.2 (hstatus h.1)
      simp only [scanJobs, hhash, if_pos hmem, if_neg hopen]
      apply ih hrest
      intro other hother h hsome
      obtain ⟨hpending, hcycle⟩ := hjobs other hother h hsome
      refine ⟨Finset.mem_erase.mpr ⟨?_, hpending⟩, hcycle⟩
      rintro rfl
      rcases hfirst other hother with hnone | hne
      · rw [hhash] at hnone
        cases hnone
      · exact hne (hhash.trans hsome.symm)

/-- One job for each desired hash, with the desired status where its cycle is open; nothing
left to do for a parent that still wants the same; and no finished job touched. -/
structure Converged (projected : List SagaProjection) (live : List LiveSagaJob)
    (motherStatus : Option String) : Prop where
  one : ∀ p ∈ projected, ∀ h, projectionHash p = some h →
    ∃! job, job ∈ reconciled projected live motherStatus ∧ job.idempotencyHash = some h
  status : ∀ p ∈ projected, ∀ job ∈ reconciled projected live motherStatus,
    projectionHash p ≠ none → job.idempotencyHash = projectionHash p → OpenCycle job.status →
      job.status = desiredJobStatus motherStatus
  again : ∀ projected' listed, projected'.map projectionHash = projected.map projectionHash →
    listed.Perm (reconciled projected live motherStatus) →
      (planSagas projected' listed motherStatus).Empty
  closed : ∀ job ∈ live, ClosedCycle job.status → job ∈ reconciled projected live motherStatus

/-- Two projections of one hash find a live job with that hash. -/
def BornOnce (projected : List SagaProjection) (live : List LiveSagaJob) : Prop :=
  ∀ p ∈ projected, ∀ q ∈ projected, p.entityId ≠ q.entityId →
    projectionHash p = projectionHash q → ¬ Missing live p

theorem BornOnce.eq_of_hash {p q : SagaProjection} (honce : BornOnce projected live)
    (hprojected : (projected.map SagaProjection.entityId).Nodup) (hp : p ∈ projected)
    (hq : q ∈ projected) (hhash : projectionHash p = projectionHash q) (hmissing : Missing live p) :
    p = q := by
  by_contra hne
  apply honce p hp q hq _ hhash hmissing
  intro hid
  exact hne (List.inj_on_of_nodup_map hprojected hp hq hid)

theorem reconciled_distinct (hids : (live.map LiveSagaJob.jobId ++
    projected.map SagaProjection.entityId).Nodup) (honce : BornOnce projected live) :
    (reconciled projected live motherStatus).Pairwise DistinctHash := by
  have hprojected : (projected.map SagaProjection.entityId).Nodup := (List.nodup_append.mp hids).2.1
  rw [reconciled_eq hids]
  apply List.pairwise_append.mpr
  refine ⟨settled_distinct, ?_, ?_⟩
  · rw [List.pairwise_map]
    apply List.Pairwise.imp_of_mem _ ((List.Nodup.of_map _ hprojected).filter _)
    intro p q hp hq hne
    obtain ⟨hp, hmissing⟩ := List.mem_filter.mp hp
    apply Or.inr
    intro hhash
    exact hne (honce.eq_of_hash hprojected hp (List.mem_filter.mp hq).1 hhash (of_decide_eq_true hmissing))
  · intro job hjob born hborn
    -- a hash that is missing is on no job that was settled
    obtain ⟨p, hp, rfl⟩ := List.mem_map.mp hborn
    obtain ⟨h, hhash, hmissing⟩ := of_decide_eq_true (List.mem_filter.mp hp).2
    obtain ⟨old, hold, _, hsame⟩ := jobId_of_settled hjob
    apply Or.inr
    intro heq
    exact hmissing old hold (hsame.trans (heq.trans hhash))

theorem hash_of_reconciled (hids : (live.map LiveSagaJob.jobId ++
    projected.map SagaProjection.entityId).Nodup) {job : LiveSagaJob} {h : String}
    (hjob : job ∈ reconciled projected live motherStatus) (hhash : job.idempotencyHash = some h) :
    h ∈ desiredHashes projected ∧ (OpenCycle job.status → job.status = desiredJobStatus motherStatus) := by
  rcases (mem_reconciled hids).mp hjob with hjob | ⟨p, hp, _, rfl⟩
  · exact settled_hash hjob hhash
  · exact ⟨mem_desiredHashes.mpr ⟨p, hp, hhash⟩, fun _ => rfl⟩

theorem exists_reconciled (hids : (live.map LiveSagaJob.jobId ++
    projected.map SagaProjection.entityId).Nodup) {h : String} (hwanted : h ∈ desiredHashes projected) :
    ∃ job ∈ reconciled projected live motherStatus, job.idempotencyHash = some h := by
  obtain ⟨p, hp, hhash⟩ := mem_desiredHashes.mp hwanted
  by_cases hmissing : Missing live p
  · exact ⟨_, (mem_reconciled hids).mpr (Or.inr ⟨p, hp, hmissing, rfl⟩), hhash⟩
  · obtain ⟨old, hold, hoccurs⟩ : ∃ old ∈ live, old.idempotencyHash = some h := by
      by_contra hnone
      exact hmissing ⟨h, hhash, fun old hold heq => hnone ⟨old, hold, heq⟩⟩
    obtain ⟨job, hjob, heq⟩ := exists_settled (s := desiredJobStatus motherStatus) hold hoccurs hwanted
    exact ⟨job, (mem_reconciled hids).mpr (Or.inl hjob), heq⟩

/-- A parent that still wants the same finds nothing to do. -/
theorem planSagas_again (hids : (live.map LiveSagaJob.jobId ++
    projected.map SagaProjection.entityId).Nodup) (honce : BornOnce projected live)
    {projected' : List SagaProjection} {listed : List LiveSagaJob}
    (hhashes : projected'.map projectionHash = projected.map projectionHash)
    (hperm : listed.Perm (reconciled projected live motherStatus)) :
    (planSagas projected' listed motherStatus).Empty := by
  have hwanted : desiredHashes projected' = desiredHashes projected := by
    have hfilter (l : List SagaProjection) :
        l.filterMap projectionHash = (l.map projectionHash).filterMap id := by
      rw [List.filterMap_map]
      rfl
    rw [desiredHashes, desiredHashes, hfilter, hhashes, ← hfilter]
  have hquiet : (scanJobs (desiredJobStatus motherStatus) (desiredHashes projected) listed).toDelete = [] ∧
      (scanJobs (desiredJobStatus motherStatus) (desiredHashes projected) listed).toRestatus = [] := by
    apply scanJobs_quiet
    · exact (hperm.pairwise_iff fun hab => Std.Symm.symm _ _ hab).mpr (reconciled_distinct hids honce)
    · intro job hjob h hhash
      exact hash_of_reconciled hids (hperm.mem_iff.mp hjob) hhash
  -- every desired hash has its job
  have hpending : (scanJobs (desiredJobStatus motherStatus) (desiredHashes projected) listed).pending =
      ∅ := by
    rw [scanJobs_pending]
    apply Finset.filter_eq_empty_iff.mpr
    intro h hmem hnone
    obtain ⟨job, hjob, heq⟩ := exists_reconciled hids hmem
    exact hnone job (hperm.mem_iff.mpr hjob) heq
  unfold planSagas diffSagas SagaReconciliation.Empty
  dsimp only
  rw [desiredHashes_withStatus, hwanted, hpending]
  refine ⟨?_, hquiet⟩
  simp

/-- A finished job stays exactly where it is the first to have its hash and that is desired. -/
theorem closed_reconciled_iff (hids : (live.map LiveSagaJob.jobId ++
    projected.map SagaProjection.entityId).Nodup) :
    (∀ job ∈ live, ClosedCycle job.status → job ∈ reconciled projected live motherStatus) ↔
      ClosedKept (desiredHashes projected) live := by
  obtain ⟨hlive, _, hfresh⟩ := List.nodup_append.mp hids
  rw [← closed_settled_iff (s := desiredJobStatus motherStatus) hlive]
  apply forall₂_congr
  intro job hjob
  rw [mem_reconciled hids]
  constructor
  · intro h hcycle
    rcases h hcycle with hmem | ⟨p, hp, _, rfl⟩
    · exact hmem
    · exact absurd rfl (hfresh _ (List.mem_map_of_mem hjob) _ (List.mem_map_of_mem hp))
  · exact fun h hcycle => Or.inl (h hcycle)

/-- The jobs of a parent converge exactly where two projections with one hash have a live
job with that hash, and every finished job is the first to have a hash that is desired. -/
theorem sagas_converge_iff (hids : (live.map LiveSagaJob.jobId ++
    projected.map SagaProjection.entityId).Nodup) :
    Converged projected live motherStatus ↔
      BornOnce projected live ∧ ClosedKept (desiredHashes projected) live := by
  have hprojected : (projected.map SagaProjection.entityId).Nodup := (List.nodup_append.mp hids).2.1
  rw [← closed_reconciled_iff hids]
  constructor
  · intro hconverged
    refine ⟨?_, hconverged.closed⟩
    rintro p hp q hq hne hsame ⟨h, hhash, hmissing⟩
    obtain ⟨job, _, hunique⟩ := hconverged.one p hp h hhash
    have hbornP := hunique (p.newborn (desiredJobStatus motherStatus))
      ⟨(mem_reconciled hids).mpr (Or.inr ⟨p, hp, ⟨h, hhash, hmissing⟩, rfl⟩), hhash⟩
    have hbornQ := hunique (q.newborn (desiredJobStatus motherStatus))
      ⟨(mem_reconciled hids).mpr (Or.inr ⟨q, hq, ⟨h, hsame.symm.trans hhash, hmissing⟩, rfl⟩),
        hsame.symm.trans hhash⟩
    exact hne (congrArg LiveSagaJob.jobId (hbornP.trans hbornQ.symm))
  · rintro ⟨honce, hclosed⟩
    constructor
    · intro p hp h hhash
      obtain ⟨job, hjob, heq⟩ := exists_reconciled hids
        (mem_desiredHashes.mpr ⟨p, hp, hhash⟩)
      refine ⟨job, ⟨hjob, heq⟩, ?_⟩
      rintro other ⟨hother, hotherHash⟩
      by_contra hne
      rcases (reconciled_distinct hids honce).forall hother hjob hne with hnone | hdiff
      · exact absurd (hotherHash.symm.trans hnone) (by simp)
      · exact hdiff (hotherHash.trans heq.symm)
    · intro p hp job hjob hsome hhash hopen
      obtain ⟨h, hh⟩ := Option.ne_none_iff_exists'.mp hsome
      exact (hash_of_reconciled hids hjob (hhash.trans hh)).2 hopen
    · intro projected' listed hhashes hperm
      exact planSagas_again hids honce hhashes hperm
    · exact hclosed

end Converge

def hashed (id hash : String) : SagaProjection :=
  ⟨"scheduled_job", id, (∅ : EntityMap).insert "idempotency_hash" (.str hash)⟩

/-- A paused parent: the job of its main hash is suspended, one is born, an orphan goes and a
finished job whose hash is still desired stays. -/
theorem paused_sagas_converge : Converged [hashed "01N1" "main", hashed "01N2" "pre", hashed "01N3" "done"]
    [⟨"01A", some "main", "ACTIVE"⟩, ⟨"01B", some "old", "ACTIVE"⟩, ⟨"01C", some "done", "COMPLETED"⟩]
    (some "PAUSED") := by
  have hids : (([⟨"01A", some "main", "ACTIVE"⟩, ⟨"01B", some "old", "ACTIVE"⟩,
      ⟨"01C", some "done", "COMPLETED"⟩] : List LiveSagaJob).map LiveSagaJob.jobId ++
      [hashed "01N1" "main", hashed "01N2" "pre", hashed "01N3" "done"].map
        SagaProjection.entityId).Nodup := by decide +kernel
  have honce : BornOnce [hashed "01N1" "main", hashed "01N2" "pre", hashed "01N3" "done"]
      [⟨"01A", some "main", "ACTIVE"⟩, ⟨"01B", some "old", "ACTIVE"⟩,
        ⟨"01C", some "done", "COMPLETED"⟩] := by
    unfold BornOnce
    decide +kernel
  apply (sagas_converge_iff hids).mpr
  refine ⟨honce, (@closed_reconciled_iff _ _ (some "PAUSED") hids).mp ?_⟩
  unfold ClosedCycle
  decide +kernel

/-- A finished job whose hash is not desired any more is deleted. -/
theorem orphaned_history_is_deleted :
    ¬ Converged [] [⟨"01JOB_A", some "HASH_A", "COMPLETED"⟩] (some "ACTIVE") := by
  intro hconverged
  have hkept := hconverged.closed _ (List.mem_singleton.mpr rfl) (Or.inl rfl)
  revert hkept
  decide +kernel

end MetriEngine.Router
