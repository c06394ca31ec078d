import MetriEngine.Router.Bulk

/-!
# What a bulk request leaves

Each row is written whole or not at all, and at most once. Where the request is answered
without an error every row is written, and the answer counts them.
-/
namespace MetriEngine.Router
open Foundation Storage Eav Codice

namespace BulkWorld
variable [F64Text] [Derived] [KeyHash] [Formats] (registry : CodeRegistry) (table : String)
  (ctx : IopContext) (model : EntityModel)

/-- The payload of a row: what the record has, read as the model wants it, is in it. -/
def Fills (i : ℕ) (rawRecord payload : JsonMap) : Prop :=
  (ctx.records[i]?).bind JsonValue.asObject = some rawRecord ∧
    ∀ name val, (coercePayload model rawRecord).lookup name = some val → payload.lookup name = some val

/-- The commit of a row: it creates an entity with the attributes of the record. -/
structure CreatesRow (i : ℕ) (c : Committed) (result : TransactResult) : Prop where
  row : c.row = some i
  call : ∃ (rawRecord payload : JsonMap) (attrs : EntityMap) (draws : RowDraws) (entityId : String),
    Fills ctx model i rawRecord payload ∧ rowAttrs model payload = .ok attrs ∧
      draws.order.entries.Perm attrs.entries ∧
      rowEntityId model rawRecord draws.entityId = .ok entityId ∧ c.call = rowCall ctx draws entityId
  plan : ∃ plan, planTransact registry table c.call ∅ = .ok plan ∧ c.datoms = plan.datoms ∧
    plan.result = result

structure Inv (st : MbfPartitionStore) (w : BulkWorld) : Prop where
  logged : Logged st w
  length : w.tasks.length = ctx.records.length
  rows : ∀ c ∈ w.commits, ∀ i ∈ c.row, ∀ task ∈ w.tasks[i]?, Stored task
  once : (w.commits.filterMap Committed.row).Nodup
  stored : ∀ i result, w.tasks[i]? = some (.finished (.ok result)) →
    ∃ c ∈ w.commits, CreatesRow registry table ctx model i c result
  filled : ∀ i payload scope rest, w.tasks[i]? = some (.injecting payload scope rest) →
    ∃ rawRecord, Fills ctx model i rawRecord payload
  counted : w.bulkErr = none → (∀ task ∈ w.tasks.take w.collected, Stored task) ∧
    w.ingested = (w.tasks.take w.collected).length ∧
    w.outboxCount = ((w.tasks.take w.collected).map outboxOf).sum
  answered : ∀ response, w.returned = some (.ok response) → w.bulkErr = none ∧
    w.tasks.length ≤ w.collected ∧
    response = ⟨w.ingested, w.outboxCount, ctx.entityType, ctx.tenantId, "oltp"⟩

variable {registry} {table} {ctx} {model} {st : MbfPartitionStore} {w w' : BulkWorld}

theorem Inv.start : Inv registry table ctx model st (BulkWorld.start st ctx.records) := by
  have hwaiting {i : ℕ} {task : RowTask} (h : (BulkWorld.start st ctx.records).tasks[i]? = some task) :
      task = .waiting := by
    obtain ⟨_, _, rfl⟩ := List.mem_map.mp (List.mem_of_getElem? h)
    rfl
  constructor
  · exact ⟨by simp [BulkWorld.start], fun _ _ _ => rfl⟩
  · simp [BulkWorld.start]
  · simp [BulkWorld.start]
  · exact List.nodup_nil
  · intro i result h
    cases hwaiting h
  · intro i payload scope rest h
    cases hwaiting h
  · simp [BulkWorld.start]
  · intro response h
    cases h

/-- A row of the running chunk goes on without a commit. -/
theorem Inv.advance (h : Inv registry table ctx model st w) {i : ℕ} {old task : RowTask}
    (hrun : w.running i = some old) (hopen : isFinished old = false) {st' : MbfPartitionStore}
    (hstore : ∀ key : PrimaryKey, key.sk.length = 11 → st'.items.lookup key = w.store.items.lookup key)
    (htask : ¬Stored task)
    (hfill : ∀ payload scope rest, task = .injecting payload scope rest →
      ∃ rawRecord, Fills ctx model i rawRecord payload) :
    Inv registry table ctx model st ({ w with store := st' }.setTask i task) := by
  obtain ⟨hreturned, _, hle, hold⟩ := running_eq_some hrun
  have htake : ((w.tasks.set i task).take w.collected) = w.tasks.take w.collected :=
    List.take_set_of_le hle
  constructor
  · refine ⟨?_, ?_⟩
    · intro c hc d hd
      exact (hstore d.key (by simp [Datom.key, Datom.eavtSk])).trans (h.logged.whole c hc d hd)
    · intro key hlength hnone
      exact (hstore key hlength).trans (h.logged.nothingElse key hlength hnone)
  · exact (List.length_set ..).trans h.length
  · intro c hc j hj task' htask'
    rcases lookup_setTask htask' with ⟨rfl, _⟩ | ⟨_, hother⟩
    · have hstored := h.rows c hc j hj old hold
      cases old with
      | waiting => cases hstored
      | injecting => cases hstored
      | finished => cases hopen
    · exact h.rows c hc j hj task' hother
  · exact h.once
  · intro j result hj
    rcases lookup_setTask hj with ⟨_, rfl⟩ | ⟨_, hother⟩
    · exact absurd trivial htask
    · exact h.stored j result hother
  · intro j payload scope rest hj
    rcases lookup_setTask hj with ⟨rfl, heq⟩ | ⟨_, hother⟩
    · exact hfill payload scope rest heq.symm
    · exact h.filled j payload scope rest hother
  · intro herr
    obtain ⟨hall, hingested, houtbox⟩ := h.counted herr
    refine ⟨?_, ?_, ?_⟩
    · intro task' htask'
      exact hall task' (htake ▸ htask')
    · exact hingested.trans (congrArg List.length htake.symm)
    · exact houtbox.trans (congrArg (fun l => (l.map outboxOf).sum) htake.symm)
  · intro response hresponse
    exact absurd (hreturned.symm.trans hresponse) (by simp)

theorem Inv.commitRow (h : Inv registry table ctx model st w) {i : ℕ} {payload rawRecord : JsonMap}
    {scope : Option ScopeContext} {draws : RowDraws}
    (hrun : w.running i = some (.injecting payload scope []))
    (hraw : (ctx.records[i]?).bind JsonValue.asObject = some rawRecord)
    (hstep : w.commitRow registry table ctx model i rawRecord payload draws = some w') :
    Inv registry table ctx model st w' := by
  obtain ⟨hreturned, herr, hle, hold⟩ := running_eq_some hrun
  obtain ⟨rawRecord', hfill⟩ := h.filled i payload scope [] hold
  obtain rfl : rawRecord' = rawRecord := Option.some.inj (hfill.1.symm.trans hraw)
  have hfailed (e : DomainError) :
      Inv registry table ctx model st (w.setTask i (.finished (.error e))) :=
    h.advance hrun rfl (fun _ _ => rfl) id (fun _ _ _ heq => by cases heq)
  unfold BulkWorld.commitRow at hstep
  cases hattrs : rowAttrs model payload with
  | error e =>
    rw [hattrs] at hstep
    cases hstep
    exact hfailed e
  | ok attrs =>
    rw [hattrs] at hstep
    dsimp only at hstep
    split_ifs at hstep with horder
    cases hid : rowEntityId model rawRecord' draws.entityId with
    | error e =>
      rw [hid] at hstep
      cases hstep
      exact hfailed e
    | ok entityId =>
      rw [hid] at hstep
      dsimp only at hstep
      rcases @commitCall_cases _ _ _ registry table w (some i) (rowCall ctx draws entityId) with
        ⟨e, hcommit⟩ | ⟨plan, st', result, hcall, hplan, hresult, hcommit⟩
      · rw [hcommit] at hstep
        cases hstep
        exact hfailed e
      · rw [hcommit] at hstep
        cases hstep
        have htake : ((w.tasks.set i (.finished (.ok result))).take w.collected) =
            w.tasks.take w.collected := List.take_set_of_le hle
        have hnew : ∀ c ∈ w.commits, c.row ≠ some i := by
          intro c hc hrow
          exact h.rows c hc i hrow _ hold
        constructor
        · exact ⟨(h.logged.commit hcall hplan).whole, (h.logged.commit hcall hplan).nothingElse⟩
        · exact (List.length_set ..).trans h.length
        · intro c hc j hj task' htask'
          rcases lookup_setTask htask' with ⟨_, rfl⟩ | ⟨hne, hother⟩
          · trivial
          · rcases List.mem_append.mp hc with hc | hc
            · exact h.rows c hc j hj task' hother
            · obtain rfl := List.mem_singleton.mp hc
              exact absurd (Option.some.inj hj).symm hne
        · change ((w.commits ++ [(⟨some i, rowCall ctx draws entityId, plan.datoms⟩ : Committed)]).filterMap
            Committed.row).Nodup
          rw [List.filterMap_append, List.nodup_append]
          refine ⟨h.once, by simp, ?_⟩
          intro j hj j' hj' heq
          obtain ⟨c, hc, hrow⟩ := List.mem_filterMap.mp hj
          have hj'' : j' = i := by simpa using hj'
          exact hnew c hc (by rw [hrow, heq, hj''])
        · intro j result' hj
          rcases lookup_setTask hj with ⟨rfl, hres⟩ | ⟨_, hother⟩
          · cases hres
            refine ⟨⟨some j, rowCall ctx draws entityId, plan.datoms⟩,
              List.mem_append_right _ (List.mem_singleton_self _), ?_⟩
            constructor
            · rfl
            · exact ⟨rawRecord', payload, attrs, draws, entityId, hfill, hattrs, horder, hid, rfl⟩
            · exact ⟨plan, hplan, rfl, hresult⟩
          · obtain ⟨c, hc, hcreates⟩ := h.stored j result' hother
            exact ⟨c, List.mem_append_left _ hc, hcreates⟩
        · intro j payload' scope' rest hj
          rcases lookup_setTask hj with ⟨_, heq⟩ | ⟨_, hother⟩
          · cases heq
          · exact h.filled j payload' scope' rest hother
        · intro _
          obtain ⟨hall, hingested, houtbox⟩ := h.counted herr
          refine ⟨?_, ?_, ?_⟩
          · intro task' htask'
            exact hall task' (htake ▸ htask')
          · exact hingested.trans (congrArg List.length htake.symm)
          · exact houtbox.trans (congrArg (fun l => (l.map outboxOf).sum) htake.symm)
        · intro response hresponse
          exact absurd (hreturned.symm.trans hresponse) (by simp)

theorem Inv.collect (h : Inv registry table ctx model st w)
    (hstep : w.step registry table ctx model .collect = some w') :
    Inv registry table ctx model st w' := by
  unfold BulkWorld.step at hstep
  dsimp only at hstep
  split_ifs at hstep with hcond
  obtain ⟨_, hreturned, herr, _, hdone⟩ := hcond
  obtain ⟨n, m, e, heq, hcounts⟩ := readResults_eq hdone herr
  rw [heq] at hstep
  cases hstep
  refine ⟨⟨h.logged.whole, h.logged.nothingElse⟩, h.length, h.rows, h.once, h.stored, h.filled, ?_, ?_⟩
  · intro he
    obtain ⟨hall, hingested, houtbox⟩ := h.counted herr
    obtain ⟨hchunk, hn, hm⟩ := hcounts he
    have hsplit : w.tasks.take (w.collected + 100) = w.tasks.take w.collected ++ w.chunk := List.take_add
    dsimp only
    rw [hsplit]
    refine ⟨?_, ?_, ?_⟩
    · intro task htask
      rcases List.mem_append.mp htask with htask | htask
      · exact hall task htask
      · exact hchunk task htask
    · rw [List.length_append, hn, hingested]
    · rw [List.map_append, List.sum_append, hm, houtbox]
  · intro response hresponse
    exact absurd (hreturned.symm.trans hresponse) (by simp)

theorem Inv.finishBatch (h : Inv registry table ctx model st w) {outcome : Except DomainError Unit}
    (hstep : w.step registry table ctx model (.finishBatch outcome) = some w') :
    Inv registry table ctx model st w' := by
  unfold BulkWorld.step at hstep
  dsimp only at hstep
  split_ifs at hstep with hcond
  cases hstep
  refine ⟨⟨h.logged.whole, h.logged.nothingElse⟩, h.length, h.rows, h.once, h.stored, h.filled,
    h.counted, ?_⟩
  intro response hresponse
  dsimp only at hresponse ⊢
  cases herr : w.bulkErr with
  | some e =>
    rw [herr] at hresponse
    cases hresponse
  | none =>
    rw [herr] at hresponse
    cases outcome with
    | error e => cases hresponse
    | ok u =>
      cases hresponse
      obtain ⟨_, _, hend⟩ := hcond
      rw [herr] at hend
      exact ⟨rfl, hend.resolve_left Bool.false_ne_true, rfl⟩

theorem Inv.other (h : Inv registry table ctx model st w) (call : TransactCall) :
    Inv registry table ctx model st (w.commitCall registry table none call).1 := by
  rcases @commitCall_cases _ _ _ registry table w none call with
    ⟨e, hcommit⟩ | ⟨plan, st', result, hcall, hplan, _, hcommit⟩
  · rw [hcommit]
    exact h
  · rw [hcommit]
    refine ⟨h.logged.commit hcall hplan, h.length, ?_, ?_, ?_, h.filled, h.counted, h.answered⟩
    · intro c hc i hi
      rcases List.mem_append.mp hc with hc | hc
      · exact h.rows c hc i hi
      · obtain rfl := List.mem_singleton.mp hc
        cases hi
    · dsimp only
      rw [List.filterMap_append]
      simpa using h.once
    · intro i result' hi
      obtain ⟨c, hc, hcreates⟩ := h.stored i result' hi
      exact ⟨c, List.mem_append_left _ hc, hcreates⟩

theorem Inv.step (h : Inv registry table ctx model st w) {a : BulkAction}
    (hstep : w.step registry table ctx model a = some w') : Inv registry table ctx model st w' := by
  cases a with
  | beginBatch outcome =>
    unfold BulkWorld.step at hstep
    dsimp only at hstep
    split_ifs at hstep with hcond
    cases outcome with
    | ok u =>
      cases hstep
      exact ⟨⟨h.logged.whole, h.logged.nothingElse⟩, h.length, h.rows, h.once, h.stored, h.filled,
        h.counted, h.answered⟩
    | error e =>
      cases hstep
      refine ⟨⟨h.logged.whole, h.logged.nothingElse⟩, h.length, h.rows, h.once, h.stored, h.filled,
        h.counted, ?_⟩
      intro response hresponse
      cases hresponse
  | collect => exact h.collect hstep
  | finishBatch outcome => exact h.finishBatch hstep
  | resolve i read =>
    unfold BulkWorld.step at hstep
    dsimp only at hstep
    split at hstep
    · rename_i record hrun hrecord
      split at hstep
      · cases hstep
        exact h.advance hrun rfl (fun _ _ => rfl) id (fun _ _ _ heq => by cases heq)
      · rename_i rawRecord hraw
        cases hstep
        apply h.advance hrun rfl (fun _ _ => rfl) id
        intro payload scope rest heq
        cases heq
        refine ⟨rawRecord, ?_, fun _ _ h => h⟩
        rw [hrecord, Option.bind_some, hraw]
    · cases hstep
  | inject i drawn nowMs =>
    unfold BulkWorld.step at hstep
    dsimp only at hstep
    split at hstep
    · rename_i payload scope attr rest hrun
      cases hstep
      obtain ⟨_, _, _, hold⟩ := running_eq_some hrun
      obtain ⟨rawRecord, hraw, hfill⟩ := h.filled i payload scope _ hold
      have hkeeps := @injectAttr_keeps w.store model ctx.tenantId scope drawn nowMs payload attr
      apply h.advance hrun rfl hkeeps.1 id
      intro payload' scope' rest' heq
      cases heq
      exact ⟨rawRecord, hraw, fun name val hval => hkeeps.2 name val (hfill name val hval)⟩
    · cases hstep
  | commit i draws =>
    unfold BulkWorld.step at hstep
    dsimp only at hstep
    split at hstep
    · rename_i payload scope rawRecord hrun hraw
      exact h.commitRow hrun hraw hstep
    · cases hstep
  | fail i e =>
    unfold BulkWorld.step at hstep
    dsimp only at hstep
    split at hstep
    · cases hstep
    · cases hstep
    · rename_i task hopen hrun
      cases hstep
      have hunfinished : isFinished task = false := by
        cases task with
        | finished result => exact absurd rfl (hopen result)
        | waiting => rfl
        | injecting => rfl
      exact h.advance hrun hunfinished (fun _ _ => rfl) id (fun _ _ _ heq => by cases heq)
  | other call =>
    cases hstep
    exact h.other call

end BulkWorld

def noteRow (title : JsonValue) : JsonValue := .object [("title", title)]

def notesRequest (second : JsonValue) : IopContext where
  tenantId := "acme"
  userId := "ada"
  entityType := "note"
  operation := "BULK_CREATE"
  request := (∅ : JsonMap).insert "data" (.array [noteRow (.string "a"), noteRow second])

def noteDraws (entityId title : String) (txId : U64) : RowDraws where
  entityId := entityId
  txId := txId
  mutationUlid := "m" ++ entityId
  nowMs := ⟨10, by norm_num⟩
  rowMs := ⟨10, by norm_num⟩
  metaMs := ⟨10, by norm_num⟩
  order := ⟨[("title", .str title)], List.nodup_singleton _⟩

/-- The second row is written before the first. -/
def notesSteps : List BulkAction :=
  [.beginBatch (.ok ()), .resolve 1 none, .resolve 0 none, .commit 1 (noteDraws "n2" "b" 12),
    .commit 0 (noteDraws "n1" "a" 13), .collect, .finishBatch (.ok ())]

/-- A row that is no note does not take the other one back. -/
def brokenSteps : List BulkAction :=
  [.beginBatch (.ok ()), .resolve 0 none, .resolve 1 none, .commit 0 (noteDraws "n1" "a" 12),
    .commit 1 (noteDraws "n2" "b" 13), .collect, .finishBatch (.ok ())]

end MetriEngine.Router
