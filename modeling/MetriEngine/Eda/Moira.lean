import MetriEngine.Eav.Reader
import MetriEngine.Foundation.Transition

/-!
# The emitter and its claims

An emission lists the outbox rows that are due, and for each one reads it, writes that it is
being processed, publishes it and writes what came of it. The reading and the writing are two
steps, and so are the watchdog's query and its resets. Replicas take these steps in any order;
a write that fails may or may not have reached the store.

A row is its attribute map. Numbers are those of its declared types.
-/
namespace MetriEngine.Eda
open Foundation Storage Eav

/-! ### Outbox rows -/

def statusOf (event : EntityMap) : String :=
  match event.lookup "status" with
  | some (.str s) => s
  | _ => "PENDING"

/-- A number of a row as a query shows it. -/
def shownI64 (event : EntityMap) (name : String) : ℤ :=
  match event.lookup name with
  | some (.long n) => n.val
  | some (.instant n) => n.val
  | _ => 0

def currentRetries (event : EntityMap) : ℤ :=
  match event.lookup "retry_count" with
  | some (.long n) => n.val
  | _ => 0

def maxRetries : ℤ := 5

/-- Neither out of retries nor put off. -/
def Due (event : EntityMap) (now : ℤ) : Prop :=
  shownI64 event "retry_count" < maxRetries ∧ shownI64 event "retry_at" ≤ now

instance (event : EntityMap) (now : ℤ) : Decidable (Due event now) :=
  inferInstanceAs (Decidable (_ ∧ _))

def i64 (z : ℤ) : Signed 64 := ⟨wrapI64 z, by norm_num; exact wrapI64_bounds z⟩

/-- `2^retries * 30 s`, at most half an hour; nothing once the retries are used up. -/
def delayMs (retries : ℤ) : ℤ :=
  let exponent := (retries + 2 ^ 31) % 2 ^ 32 - 2 ^ 31
  if retries + 1 ≥ maxRetries then 0
  else if exponent ≥ 6 then 1800000
  else if 0 ≤ exponent then 30000 * 2 ^ exponent.toNat
  else 30000 / 2 ^ (-exponent).toNat

def claimAttrs (now : ℤ) : List (String × DatomValue) :=
  [("status", .str "PROCESSING"), ("claimed_at", .instant (i64 now))]

def deliveredAttrs : List (String × DatomValue) := [("status", .str "DELIVERED")]

def failedAttrs (retries now : ℤ) : List (String × DatomValue) :=
  [("status", .str "FAILED"), ("retry_count", .long (i64 (retries + 1))),
    ("retry_at", .instant (i64 (now + delayMs retries)))]

def resetAttrs : List (String × DatomValue) := [("status", .str "PENDING")]

/-! ### Replicas -/

/-- Where a replica stands in an emission or in a run of the watchdog. -/
inductive Stage
  | idle
  | emitting (queue : List String)
  | claiming (id : String) (pulled : EntityMap) (now : ℤ) (queue : List String)
  | claimed (id : String) (queue : List String)
  | publishing (id : String) (event : EntityMap) (queue : List String)
  | delivering (id : String) (queue : List String)
  | failing (id : String) (queue : List String)
  | backingOff (id : String) (retries now : ℤ) (queue : List String)
  | watching (orphans : List (String × EntityMap))
deriving DecidableEq

/-- The event that a replica holds a claim on: from the claim to the write that ends it. -/
def Stage.holds : Stage → Option String
  | .claimed id _ => some id
  | .publishing id _ _ => some id
  | .delivering id _ => some id
  | .failing id _ => some id
  | .backingOff id _ _ _ => some id
  | _ => none

/-- What was done: claims, with the row as it was and the time; publications; changes of status. -/
inductive Entry (ι : Type)
  | claimed (r : ι) (id : String) (before : EntityMap) (now : ℤ)
  | published (r : ι) (id : String) (event : EntityMap)
  | wrote (id : String) (before after : String)

/-- A write that succeeds, one that fails after it was committed, and one that fails. -/
inductive WriteOutcome
  | confirmed
  | unconfirmed
  | refused
deriving DecidableEq

structure Moira (ι : Type) where
  rows : OrdMap String EntityMap
  stage : ι → Stage
  log : List (Entry ι)

inductive MoiraAction (ι : Type)
  | generate (id : String) (event : EntityMap)
  | fetch (r : ι) (now : ℤ) (pending failed : List (String × EntityMap))
  | pull (r : ι) (now : ℤ) (ok : Bool)
  | claim (r : ι) (outcome : WriteOutcome)
  | hydrate (r : ι) (ok : Bool)
  | publish (r : ι) (ok : Bool)
  | deliver (r : ι) (outcome : WriteOutcome)
  | readRetries (r : ι) (now : ℤ) (ok : Bool)
  | fail (r : ι) (outcome : WriteOutcome)
  | query (r : ι) (now ttlMs : ℤ) (processing : List (String × EntityMap))
  | reset (r : ι) (outcome : WriteOutcome)
  | leave (r : ι)

/-- The statuses that a claim accepts. -/
def Claimable (event : EntityMap) : Prop := statusOf event = "PENDING" ∨ statusOf event = "FAILED"

instance (event : EntityMap) : Decidable (Claimable event) := inferInstanceAs (Decidable (_ ∨ _))

/-- The events of an emission, the oldest first. -/
def emissionQueue (now : ℤ) (pending failed : List (String × EntityMap)) : List String :=
  ((pending ++ failed.filter fun e => Due e.2 now).insertionSort fun a b =>
    shownI64 a.2 "created_at" ≤ shownI64 b.2 "created_at").map Prod.fst

/-- The row that is published. -/
def hydrated (id : String) (event : EntityMap) : EntityMap :=
  if event.isEmpty then event else (event.insert "id" (.str id)).insert "outbox_id" (.str id)

namespace Moira

section Rows
variable {ι : Type} (w : Moira ι)

def row (id : String) : EntityMap := (w.rows.lookup id).getD ∅

/-- The answer of a query by status. -/
def Lists (status : String) (rows : List (String × EntityMap)) : Prop :=
  rows.length ≤ 100 ∧
    ∀ e ∈ rows, w.rows.lookup e.1 = some e.2 ∧ e.2.lookup "status" = some (.str status)

instance (status : String) (rows : List (String × EntityMap)) : Decidable (w.Lists status rows) :=
  inferInstanceAs (Decidable (_ ∧ _))

/-- An update of a row, whatever it holds by now. -/
def write (id : String) (attrs : List (String × DatomValue)) : Moira ι :=
  { w with
    rows := w.rows.insert id ((w.row id).insertList attrs)
    log := .wrote id (statusOf (w.row id)) (statusOf ((w.row id).insertList attrs)) :: w.log }

def record (entry : Entry ι) : Moira ι := { w with log := entry :: w.log }

end Rows

section Step
variable {ι : Type} [DecidableEq ι] (w : Moira ι)

def moveTo (r : ι) (stage : Stage) : Moira ι := { w with stage := Function.update w.stage r stage }

/-- A write that ends the work on an event: on to the next, or out with the error. -/
def finish (r : ι) (outcome : WriteOutcome) (id : String) (attrs : List (String × DatomValue))
    (next : Stage) : Moira ι :=
  match outcome with
  | .confirmed => (w.moveTo r next).write id attrs
  | .unconfirmed => (w.moveTo r .idle).write id attrs
  | .refused => w.moveTo r .idle

def step : MoiraAction ι → Option (Moira ι)
  | .generate id event =>
    if w.rows.lookup id = none then some { w with rows := w.rows.insert id event } else none
  | .fetch r now pending failed =>
    match w.stage r with
    | .idle =>
      if w.Lists "PENDING" pending ∧ w.Lists "FAILED" failed then
        some (w.moveTo r (.emitting (emissionQueue now pending failed)))
      else none
    | _ => none
  | .pull r now ok =>
    match w.stage r with
    | .emitting (id :: queue) =>
      if ok = true ∧ (w.row id).isEmpty = false ∧ Claimable (w.row id) then
        some (w.moveTo r (.claiming id (w.row id) now queue))
      else some (w.moveTo r (.emitting queue))
    | _ => none
  | .claim r outcome =>
    match w.stage r with
    | .claiming id _ now queue =>
      match outcome with
      | .confirmed => some (((w.write id (claimAttrs now)).record
          (.claimed r id (w.row id) now)).moveTo r (.claimed id queue))
      | .unconfirmed => some (((w.write id (claimAttrs now)).record
          (.claimed r id (w.row id) now)).moveTo r (.emitting queue))
      | .refused => some (w.moveTo r (.emitting queue))
    | _ => none
  | .hydrate r ok =>
    match w.stage r with
    | .claimed id queue =>
      if ok then some (w.moveTo r (.publishing id (hydrated id (w.row id)) queue))
      else some (w.moveTo r (.emitting queue))
    | _ => none
  | .publish r ok =>
    match w.stage r with
    | .publishing id event queue =>
      some ((w.record (.published r id event)).moveTo r
        (if ok then .delivering id queue else .failing id queue))
    | _ => none
  | .deliver r outcome =>
    match w.stage r with
    | .delivering id queue => some (w.finish r outcome id deliveredAttrs (.emitting queue))
    | _ => none
  | .readRetries r now ok =>
    match w.stage r with
    | .failing id queue =>
      if ok then some (w.moveTo r (.backingOff id (currentRetries (w.row id)) now queue))
      else some (w.moveTo r .idle)
    | _ => none
  | .fail r outcome =>
    match w.stage r with
    | .backingOff id retries now queue =>
      some (w.finish r outcome id (failedAttrs retries now) (.emitting queue))
    | _ => none
  | .query r now ttlMs processing =>
    match w.stage r with
    | .idle =>
      if w.Lists "PROCESSING" processing then
        some (w.moveTo r (.watching (processing.filter fun e =>
          shownI64 e.2 "claimed_at" ≤ wrapI64 (now - ttlMs))))
      else none
    | _ => none
  | .reset r outcome =>
    match w.stage r with
    | .watching (e :: orphans) => some (w.finish r outcome e.1 resetAttrs (.watching orphans))
    | _ => none
  | .leave r => some (w.moveTo r .idle)

end Step

/-- The rows as the writers left them, and nobody at work. -/
def start {ι : Type} (rows : OrdMap String EntityMap) : Moira ι := ⟨rows, fun _ => .idle, []⟩

end Moira

/-! ### The property -/

section Property
variable {ι : Type}

/-- A claim is on an event that waits and is due; a publication follows a claim of the same
replica; an event that is delivered stays so. -/
def Entry.Lawful (earlier : List (Entry ι)) : Entry ι → Prop
  | .claimed _ _ before now => Claimable before ∧ Due before now
  | .published r id _ => ∃ before now, Entry.claimed r id before now ∈ earlier
  | .wrote _ before after => before = "DELIVERED" → after = "DELIVERED"

/-- The last entry first. -/
def LogLawful : List (Entry ι) → Prop
  | [] => True
  | entry :: earlier => entry.Lawful earlier ∧ LogLawful earlier

structure Moira.Lawful (w : Moira ι) : Prop where
  log : LogLawful w.log
  exclusive : ∀ r s id, (w.stage r).holds = some id → (w.stage s).holds = some id → r = s

/-- A claim is written on the row that was read, and that row is due; a reset is written on the
row that the query showed, and no replica holds the event. -/
def Moira.Undisturbed (w : Moira ι) : MoiraAction ι → Prop
  | .claim r _ =>
    match w.stage r with
    | .claiming id pulled now _ => w.rows.lookup id = some pulled ∧ Due pulled now
    | _ => True
  | .reset r _ =>
    match w.stage r with
    | .watching (e :: _) => w.rows.lookup e.1 = some e.2 ∧ ∀ s, (w.stage s).holds ≠ some e.1
    | _ => True
  | _ => True

instance [Fintype ι] (w : Moira ι) (a : MoiraAction ι) : Decidable (w.Undisturbed a) := by
  unfold Moira.Undisturbed
  split <;> (try split) <;> infer_instance

end Property

/-! ### What carries it -/

section Invariant
variable {ι : Type} {w w' : Moira ι}

/-- What a replica has checked of a row before it writes it. -/
def Stage.Checked : Stage → Prop
  | .claiming _ pulled _ _ => Claimable pulled
  | .watching orphans => ∀ e ∈ orphans, statusOf e.2 = "PROCESSING"
  | _ => True

/-- An event that is held is being processed, by one replica, which has claimed it. -/
structure Moira.Inv (w : Moira ι) : Prop where
  log : LogLawful w.log
  exclusive : ∀ r s id, (w.stage r).holds = some id → (w.stage s).holds = some id → r = s
  processing : ∀ r id, (w.stage r).holds = some id →
    ∃ event, w.rows.lookup id = some event ∧ statusOf event = "PROCESSING"
  claimed : ∀ r id, (w.stage r).holds = some id → ∃ before now, .claimed r id before now ∈ w.log
  checked : ∀ r, (w.stage r).Checked

theorem statusOf_listed {status : String} {rows : List (String × EntityMap)}
    (h : w.Lists status rows) {e : String × EntityMap} (he : e ∈ rows) : statusOf e.2 = status := by
  rw [statusOf, (h.2 e he).2]

theorem row_of_lookup {id : String} {event : EntityMap} (h : w.rows.lookup id = some event) :
    w.row id = event := by
  rw [Moira.row, h, Option.getD_some]

/-- The status that an update sets. -/
theorem statusOf_insertList (event : EntityMap) (status : String) {rest : List (String × DatomValue)}
    (hrest : "status" ∉ rest.map Prod.fst) :
    statusOf (event.insertList (("status", .str status) :: rest)) = status := by
  rw [statusOf, OrdMap.insertList_cons, OrdMap.lookup_insertList_of_notMem _ hrest,
    OrdMap.lookup_insert_self]

theorem Moira.Inv.record (h : w.Inv) {entry : Entry ι} (hentry : entry.Lawful w.log) :
    (w.record entry).Inv := by
  refine ⟨⟨hentry, h.log⟩, h.exclusive, h.processing, ?_, h.checked⟩
  intro r id hholds
  obtain ⟨before, now, hin⟩ := h.claimed r id hholds
  exact ⟨before, now, List.mem_cons_of_mem _ hin⟩

/-- A write on an event that nobody holds. -/
theorem Moira.Inv.write (h : w.Inv) {id : String} (attrs : List (String × DatomValue))
    (hnobody : ∀ r, (w.stage r).holds ≠ some id)
    (hstatus : statusOf (w.row id) = "DELIVERED" →
      statusOf ((w.row id).insertList attrs) = "DELIVERED") : (w.write id attrs).Inv := by
  refine ⟨⟨hstatus, h.log⟩, h.exclusive, ?_, ?_, h.checked⟩
  · intro r other hholds
    have hne : other ≠ id := by
      rintro rfl
      exact hnobody r hholds
    obtain ⟨event, hlookup, hprocessing⟩ := h.processing r other hholds
    refine ⟨event, ?_, hprocessing⟩
    exact (OrdMap.lookup_insert_of_ne _ _ hne).trans hlookup
  · intro r other hholds
    obtain ⟨before, now, hin⟩ := h.claimed r other hholds
    exact ⟨before, now, List.mem_cons_of_mem _ hin⟩

variable [DecidableEq ι]

theorem moveTo_self (r : ι) (stage : Stage) : (w.moveTo r stage).stage r = stage :=
  Function.update_self _ _ _

theorem moveTo_of_ne {r s : ι} (stage : Stage) (h : s ≠ r) :
    (w.moveTo r stage).stage s = w.stage s :=
  Function.update_of_ne h _ _

/-- A replica goes on without taking hold of anything. -/
theorem Moira.Inv.moveTo (h : w.Inv) {r : ι} {stage : Stage}
    (hholds : ∀ id, stage.holds = some id → (w.stage r).holds = some id)
    (hchecked : stage.Checked) : (w.moveTo r stage).Inv := by
  have hback : ∀ s id, ((w.moveTo r stage).stage s).holds = some id →
      (w.stage s).holds = some id := by
    intro s id hs
    by_cases hsr : s = r
    · subst hsr
      rw [moveTo_self] at hs
      exact hholds id hs
    · rwa [moveTo_of_ne stage hsr] at hs
  refine ⟨h.log, ?_, ?_, ?_, ?_⟩
  · intro s t id hs ht
    exact h.exclusive s t id (hback s id hs) (hback t id ht)
  · intro s id hs
    exact h.processing s id (hback s id hs)
  · intro s id hs
    exact h.claimed s id (hback s id hs)
  · intro s
    by_cases hsr : s = r
    · subst hsr
      rw [moveTo_self]
      exact hchecked
    · rw [moveTo_of_ne stage hsr]
      exact h.checked s

/-- A replica takes hold of an event that nobody holds and that it has claimed. -/
theorem Moira.Inv.take (h : w.Inv) {r : ι} {id : String} (queue : List String)
    (hnobody : ∀ s, (w.stage s).holds ≠ some id)
    (hprocessing : ∃ event, w.rows.lookup id = some event ∧ statusOf event = "PROCESSING")
    (hclaimed : ∃ before now, .claimed r id before now ∈ w.log) :
    (w.moveTo r (.claimed id queue)).Inv := by
  have hcases : ∀ s other, ((w.moveTo r (.claimed id queue)).stage s).holds = some other →
      s = r ∧ other = id ∨ s ≠ r ∧ (w.stage s).holds = some other := by
    intro s other hs
    by_cases hsr : s = r
    · subst hsr
      rw [moveTo_self] at hs
      exact Or.inl ⟨rfl, (Option.some.inj hs).symm⟩
    · rw [moveTo_of_ne _ hsr] at hs
      exact Or.inr ⟨hsr, hs⟩
  refine ⟨h.log, ?_, ?_, ?_, ?_⟩
  · intro s t other hs ht
    rcases hcases s other hs with ⟨rfl, rfl⟩ | ⟨_, hkept⟩
    · rcases hcases t other ht with ⟨rfl, _⟩ | ⟨_, hkept⟩
      · rfl
      · exact absurd hkept (hnobody t)
    · rcases hcases t other ht with ⟨rfl, rfl⟩ | ⟨_, hkept'⟩
      · exact absurd hkept (hnobody s)
      · exact h.exclusive s t other hkept hkept'
  · intro s other hs
    rcases hcases s other hs with ⟨_, rfl⟩ | ⟨_, hs⟩
    · exact hprocessing
    · exact h.processing s other hs
  · intro s other hs
    rcases hcases s other hs with ⟨rfl, rfl⟩ | ⟨_, hs⟩
    · exact hclaimed
    · exact h.claimed s other hs
  · intro s
    by_cases hsr : s = r
    · subst hsr
      rw [moveTo_self]
      trivial
    · rw [moveTo_of_ne _ hsr]
      exact h.checked s

/-- The write that ends the work on an event: its holder lets go of it. -/
theorem Moira.Inv.finish (h : w.Inv) {r : ι} {id status : String} {rest : List (String × DatomValue)}
    {next : Stage} (hnobody : ∀ s, s ≠ r → (w.stage s).holds ≠ some id)
    (hrow : statusOf (w.row id) = "PROCESSING") (hnext : next.holds = none) (hchecked : next.Checked)
    (outcome : WriteOutcome) :
    (w.finish r outcome id (("status", .str status) :: rest) next).Inv := by
  have hleft : ∀ stage : Stage, stage.holds = none →
      ∀ s, ((w.moveTo r stage).stage s).holds ≠ some id := by
    intro stage hnone s
    by_cases hsr : s = r
    · subst hsr
      rw [moveTo_self, hnone]
      simp
    · rw [moveTo_of_ne _ hsr]
      exact hnobody s hsr
  have hwrite : ∀ stage : Stage, stage.holds = none → stage.Checked →
      ((w.moveTo r stage).write id (("status", .str status) :: rest)).Inv := by
    intro stage hnone hstage
    have hmoved : (w.moveTo r stage).Inv := h.moveTo (by simp [hnone]) hstage
    apply hmoved.write _ (hleft stage hnone)
    intro hdelivered
    change statusOf (w.row id) = "DELIVERED" at hdelivered
    rw [hrow] at hdelivered
    exact absurd hdelivered (by decide)
  cases outcome with
  | confirmed => exact hwrite next hnext hchecked
  | unconfirmed => exact hwrite .idle rfl trivial
  | refused => exact h.moveTo (by simp [Stage.holds]) trivial

omit [DecidableEq ι] in
theorem Moira.Inv.claim (h : w.Inv) {r : ι} {id : String} {pulled : EntityMap} {now : ℤ}
    {queue : List String} (hstage : w.stage r = .claiming id pulled now queue)
    (hlookup : w.rows.lookup id = some pulled) (hdue : Due pulled now) :
    ((w.write id (claimAttrs now)).record (.claimed r id (w.row id) now)).Inv ∧
      (∀ s, (w.stage s).holds ≠ some id) ∧
      statusOf ((w.row id).insertList (claimAttrs now)) = "PROCESSING" := by
  have hclaimable : Claimable pulled := by
    have hchecked := h.checked r
    rwa [hstage] at hchecked
  have hrow : w.row id = pulled := row_of_lookup hlookup
  have hnobody : ∀ s, (w.stage s).holds ≠ some id := by
    intro s hs
    obtain ⟨event, hevent, hprocessing⟩ := h.processing s id hs
    rw [hlookup] at hevent
    cases hevent
    rcases hclaimable with hpending | hfailed
    · rw [hprocessing] at hpending
      exact absurd hpending (by decide)
    · rw [hprocessing] at hfailed
      exact absurd hfailed (by decide)
  have hwritten : (w.write id (claimAttrs now)).Inv := by
    apply h.write _ hnobody
    intro hdelivered
    rw [hrow] at hdelivered
    rcases hclaimable with hpending | hfailed
    · rw [hdelivered] at hpending
      exact absurd hpending (by decide)
    · rw [hdelivered] at hfailed
      exact absurd hfailed (by decide)
  refine ⟨hwritten.record ?_, hnobody, statusOf_insertList _ _ (by simp)⟩
  rw [hrow]
  exact ⟨hclaimable, hdue⟩

theorem Moira.Inv.step (h : w.Inv) {a : MoiraAction ι} (hguard : w.Undisturbed a)
    (hstep : w.step a = some w') : w'.Inv := by
  cases a with
  | generate id event =>
    simp only [Moira.step] at hstep
    split_ifs at hstep with hfresh
    cases hstep
    refine ⟨h.log, h.exclusive, ?_, h.claimed, h.checked⟩
    intro r other hholds
    obtain ⟨event', hlookup, hprocessing⟩ := h.processing r other hholds
    have hne : other ≠ id := by
      rintro rfl
      rw [hfresh] at hlookup
      cases hlookup
    exact ⟨event', (OrdMap.lookup_insert_of_ne _ _ hne).trans hlookup, hprocessing⟩
  | fetch r now pending failed =>
    simp only [Moira.step] at hstep
    split at hstep
    · split_ifs at hstep
      cases hstep
      exact h.moveTo (by simp [Stage.holds]) trivial
    · cases hstep
  | pull r now ok =>
    simp only [Moira.step] at hstep
    split at hstep
    · split_ifs at hstep with hpulled
      · cases hstep
        exact h.moveTo (by simp [Stage.holds]) hpulled.2.2
      · cases hstep
        exact h.moveTo (by simp [Stage.holds]) trivial
    · cases hstep
  | claim r outcome =>
    simp only [Moira.step] at hstep
    split at hstep
    · rename_i id pulled now queue hstage
      have hpulled : w.rows.lookup id = some pulled ∧ Due pulled now := by
        simpa only [Moira.Undisturbed, hstage] using hguard
      obtain ⟨hrecorded, hnobody, hprocessing⟩ := h.claim hstage hpulled.1 hpulled.2
      cases outcome with
      | confirmed =>
        cases hstep
        apply hrecorded.take queue hnobody
        · exact ⟨_, OrdMap.lookup_insert_self _ _ _, hprocessing⟩
        · exact ⟨_, _, List.mem_cons_self⟩
      | unconfirmed =>
        cases hstep
        exact hrecorded.moveTo (by simp [Stage.holds]) trivial
      | refused =>
        cases hstep
        exact h.moveTo (by simp [Stage.holds]) trivial
    · cases hstep
  | hydrate r ok =>
    simp only [Moira.step] at hstep
    split at hstep
    · rename_i id queue hstage
      split_ifs at hstep
      · cases hstep
        exact h.moveTo (by simp [hstage, Stage.holds]) trivial
      · cases hstep
        exact h.moveTo (by simp [Stage.holds]) trivial
    · cases hstep
  | publish r ok =>
    simp only [Moira.step] at hstep
    split at hstep
    · rename_i id event queue hstage
      cases hstep
      have hclaimed := h.claimed r id (by rw [hstage]; rfl)
      have hrecorded : (w.record (.published r id event)).Inv := h.record hclaimed
      apply hrecorded.moveTo
      · intro other hother
        change (w.stage r).holds = some other
        rw [hstage]
        cases ok <;> exact hother
      · cases ok <;> trivial
    · cases hstep
  | deliver r outcome =>
    simp only [Moira.step] at hstep
    split at hstep
    · rename_i id queue hstage
      cases hstep
      have hheld : (w.stage r).holds = some id := by rw [hstage]; rfl
      obtain ⟨event, hlookup, hprocessing⟩ := h.processing r id hheld
      apply h.finish
      · intro s hsr hs
        exact hsr (h.exclusive s r id hs hheld)
      · rw [row_of_lookup hlookup, hprocessing]
      · rfl
      · trivial
    · cases hstep
  | readRetries r now ok =>
    simp only [Moira.step] at hstep
    split at hstep
    · rename_i id queue hstage
      split_ifs at hstep
      · cases hstep
        exact h.moveTo (by simp [hstage, Stage.holds]) trivial
      · cases hstep
        exact h.moveTo (by simp [Stage.holds]) trivial
    · cases hstep
  | fail r outcome =>
    simp only [Moira.step] at hstep
    split at hstep
    · rename_i id retries now queue hstage
      cases hstep
      have hheld : (w.stage r).holds = some id := by rw [hstage]; rfl
      obtain ⟨event, hlookup, hprocessing⟩ := h.processing r id hheld
      apply h.finish
      · intro s hsr hs
        exact hsr (h.exclusive s r id hs hheld)
      · rw [row_of_lookup hlookup, hprocessing]
      · rfl
      · trivial
    · cases hstep
  | query r now ttlMs processing =>
    simp only [Moira.step] at hstep
    split at hstep
    · split_ifs at hstep with hlists
      cases hstep
      apply h.moveTo (by simp [Stage.holds])
      intro e he
      exact statusOf_listed hlists (List.mem_filter.mp he).1
    · cases hstep
  | reset r outcome =>
    simp only [Moira.step] at hstep
    split at hstep
    · rename_i e orphans hstage
      cases hstep
      have hshown : w.rows.lookup e.1 = some e.2 ∧ ∀ s, (w.stage s).holds ≠ some e.1 := by
        simpa only [Moira.Undisturbed, hstage] using hguard
      have hchecked : (Stage.watching (e :: orphans)).Checked := hstage ▸ h.checked r
      apply h.finish
      · intro s _
        exact hshown.2 s
      · rw [row_of_lookup hshown.1]
        exact hchecked e List.mem_cons_self
      · rfl
      · intro e' he'
        exact hchecked e' (List.mem_cons_of_mem _ he')
    · cases hstep
  | leave r =>
    cases hstep
    exact h.moveTo (by simp [Stage.holds]) trivial

end Invariant

/-! ### One event, two replicas -/

section Replicas

/-- A fresh outbox row. -/
def pendingRow : EntityMap :=
  (∅ : EntityMap).insertList [("status", .str "PENDING"), ("detail_type", .str "note.create"),
    ("payload", .str ""), ("retry_count", .long (i64 0)), ("created_at", .instant (i64 1000))]

/-- One replica publishes the event and confirms it; the other then finds nothing to claim. -/
def oneAfterTheOther : List (MoiraAction Bool) :=
  [.generate "m" pendingRow, .fetch true 1001 [("m", pendingRow)] [],
    .fetch false 1001 [("m", pendingRow)] [], .pull true 1002 true, .claim true .confirmed,
    .hydrate true true, .publish true true, .pull false 1003 true, .deliver true .confirmed]

/-- Both replicas read the event before either writes. -/
def bothPullFirst : List (MoiraAction Bool) :=
  [.generate "m" pendingRow, .fetch true 1001 [("m", pendingRow)] [],
    .fetch false 1001 [("m", pendingRow)] [], .pull true 1002 true, .pull false 1002 true,
    .claim true .confirmed, .claim false .confirmed]

end Replicas
end MetriEngine.Eda
