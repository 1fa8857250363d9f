import NewsNotifier.BatchDispatch
import NewsNotifier.StoredArticles
import NewsNotifier.CommittedRows

namespace NewsNotifier

open Interleaving

/-- A log lists what was just gathered for its batch, or one item under a key just drawn. -/
def Lists (last : Option NewsSaid) : Stmt → Prop
  | .insertLog m b ids =>
    (∃ items : List NewsItem, last = some ⟨.batchItems m b, items⟩ ∧ ids = items.map (·.id)) ∨
      ∃ id, last = some ⟨.uuid4, b⟩ ∧ ids = [id]
  | .assign (.insertLog _) => False
  | _ => True

/-- Only the last thing said is remembered. -/
def lastSaid : Monitor Stmt Answer (Option NewsSaid) where
  next _ s r := some ⟨s, r⟩
  given _ _ _ := True
  asked := Lists

def Orders {α : Type} (p : Program α) : Prop :=
  ∀ last, p.Obeys lastSaid (fun _ _ => True) (fun _ _ => True) last

/-- The statements that insert no log. -/
def Stmt.unlisted : Stmt → Prop
  | .insertLog _ _ _ => False
  | .assign (.insertLog _) => False
  | _ => True

theorem Stmt.unlisted.lists {s : Stmt} (h : s.unlisted) (last : Option NewsSaid) : Lists last s := by
  unfold Stmt.unlisted at h
  split at h
  next => exact h.elim
  next => exact h.elim
  next insert assign =>
    unfold Lists
    split
    next m b ids => exact (insert m b ids rfl).elim
    next row => exact (assign row rfl).elim
    next => exact True.intro

section Rules

variable {α β : Type}

theorem Orders.ret (a : α) : Orders (.ret a : Program α) := fun _ => True.intro

theorem Orders.raise (e : Raised) : Orders (.raise e : Program α) := fun _ => True.intro

theorem Orders.stmt {s : Stmt} {next : Answer s → Program α} (hs : s.unlisted) (h : ∀ r, Orders (next r)) :
    Orders (.stmt s next) :=
  fun last => ⟨hs.lists last, fun r _ => h r _⟩

theorem Orders.bind {p : Program α} {f : α → Program β} (hp : Orders p) (hf : ∀ a, Orders (f a)) :
    Orders (p.bind f) :=
  fun last => Prog.Obeys.bind ((hp last).mono (fun m a _ => hf a m) fun _ _ h => h)

theorem Orders.forEach {xs : List α} {f : α → Program Unit} (h : ∀ x ∈ xs, Orders (f x)) :
    Orders (Prog.forEach xs f) := by
  induction xs with
  | nil => exact .ret ()
  | cons x xs ih =>
    exact (h x List.mem_cons_self).bind fun _ => ih fun y hy => h y (List.mem_cons_of_mem _ hy)

theorem Orders.of_each {p : Program α} {F : Raised → Prop} (h : p.Each Stmt.unlisted F) : Orders p := by
  induction p with
  | ret a => exact .ret a
  | raise e => exact .raise e
  | stmt s next ih => exact .stmt h.1 fun r => ih r (h.2 r)

end Rules

theorem reading_unlisted (m : Uuid) (s : Stmt) (h : s.reading m) : s.unlisted := by
  cases s <;> first | exact True.intro | exact h.elim

section Batching

variable {m : Uuid}

theorem finalizeBatchDelivery_orders (b : Uuid) : Orders (finalizeBatchDelivery m b) := by
  intro last
  refine ⟨True.intro, fun items _ => ?_⟩
  simp only [Prog.ret_bind]
  split
  next => exact True.intro
  next => exact ⟨.inl ⟨items, rfl, rfl⟩, fun _ _ => True.intro⟩

theorem createSoloDelivery_orders (id : Uuid) : Orders (createSoloDelivery m id) :=
  fun _ => ⟨True.intro, fun _ _ => ⟨.inr ⟨id, rfl, rfl⟩, fun _ _ => True.intro⟩⟩

theorem enqueueDelivery_orders (logId : Option Uuid) : Orders (enqueueDelivery logId) :=
  .of_each (F := fun _ => True) (enqueueDelivery_does (fun _ => True.intro) logId)

theorem resolveBatchCandidate_orders (b : Uuid) (h outcome : String) (item : Option Uuid) :
    Orders (resolveBatchCandidate m b h outcome item) := by
  refine Orders.stmt True.intro fun _ => Orders.stmt True.intro fun inserted => ?_
  simp only [Prog.ret_bind]
  split
  next => exact Orders.stmt True.intro fun _ => .ret none
  next =>
    refine Orders.stmt True.intro fun row => ?_
    simp only [Prog.ret_bind]
    split
    next =>
      refine Orders.stmt True.intro fun _ => ?_
      cases item with
      | none => exact .ret none
      | some id =>
        exact (createSoloDelivery_orders id).bind fun logId => Orders.stmt True.intro fun _ => .ret (some logId)
    next => exact Orders.stmt True.intro fun _ => .ret none
    next =>
      exact (finalizeBatchDelivery_orders b).bind fun logId => Orders.stmt True.intro fun _ => .ret logId

theorem forceCloseBatch_orders (b : Uuid) : Orders (forceCloseBatch m b) := by
  refine Orders.stmt True.intro fun _ => Orders.stmt True.intro fun row => ?_
  simp only [Prog.ret_bind]
  split
  next => exact Orders.stmt True.intro fun _ => .ret none
  next =>
    exact (finalizeBatchDelivery_orders b).bind fun logId => Orders.stmt True.intro fun _ => .ret logId

theorem resolve_orders (candidate : Candidate) (batchId : Option Uuid) (outcome : String) (item : Option Uuid) :
    Orders (resolve m candidate batchId outcome item) := by
  cases batchId with
  | some b => exact (resolveBatchCandidate_orders b _ _ item).bind enqueueDelivery_orders
  | none =>
    cases item with
    | none => exact Orders.stmt True.intro fun _ => .ret ()
    | some id =>
      exact (createSoloDelivery_orders id).bind fun logId => Orders.stmt True.intro fun _ =>
        enqueueDelivery_orders (some logId)

end Batching

section Tasks

variable {lib : PyLib} {cfg : Settings} {market : Market} {candidate : Candidate} {batchId : Option Uuid}

theorem processCandidate_orders (m : Uuid) : Orders (processCandidate lib cfg m candidate batchId) := by
  have leads : (processCandidate lib cfg m candidate batchId).Leads Stmt.unlisted (fun _ => True)
      fun p => ∃ m, Resolution m candidate batchId p :=
    processCandidate_leads m (fun _ => True.intro) reading_unlisted (fun _ => True.intro) (fun _ => True.intro)
      fun _ _ _ => True.intro
  refine leads.obeys (fun last s unlisted => unlisted.lists last) (fun p h => ?_) fun _ _ _ => True.intro
  obtain ⟨m', outcome, item, rfl⟩ := h
  exact resolve_orders candidate batchId outcome item

theorem dispatchCandidate_orders (m : Uuid) : Orders (dispatchCandidate m batchId candidate) := by
  refine Orders.stmt True.intro fun accepted => ?_
  simp only [Prog.ret_bind, Prog.bind_eq]
  have registers : (registerMarketJob m (JobId.processCandidate m candidate.canonicalUrlHash)).Each
      Stmt.unlisted fun _ => True :=
    registerMarketJob_does (fun _ => True.intro) True.intro _
  refine Orders.bind (.of_each registers) fun _ => ?_
  cases batchId with
  | none => exact .ret ()
  | some b =>
    dsimp only
    split
    next => exact .ret ()
    next => exact (resolveBatchCandidate_orders b _ _ none).bind enqueueDelivery_orders

theorem dispatchCycle_orders (m : Uuid) (next : Time) (selected : List Candidate) :
    Orders (dispatchCycle m next batchId selected) :=
  Orders.stmt True.intro fun _ => .forEach fun _ _ => dispatchCandidate_orders m

theorem processMarket_orders (m : Uuid) : Orders (processMarket lib cfg m) := by
  refine Orders.stmt True.intro fun found => ?_
  simp only [Prog.ret_bind]
  split
  next => exact .ret ()
  next market =>
    have assigned : ∀ change, Orders (assignMarket market change) :=
      fun change => .of_each (F := fun _ => True) (assignMarket_does market True.intro)
    split
    next => exact .ret ()
    next =>
      have selects : (selectCandidates lib cfg market).Each Stmt.unlisted fun _ => True :=
        selectCandidates_does market (fun _ => True.intro) (reading_unlisted market.id)
      refine Orders.bind (.of_each selects) fun selected => ?_
      refine Orders.stmt True.intro fun lastPolledAt => Orders.stmt True.intro fun u => ?_
      refine (assigned _).bind fun _ => (assigned _).bind fun _ => ?_
      split
      next => exact Orders.stmt True.intro fun _ => dispatchCycle_orders _ _ _
      next =>
        exact Orders.stmt True.intro fun _ => Orders.stmt True.intro fun _ => dispatchCycle_orders _ _ _

theorem enqueueStuckDeliveries_orders : Orders enqueueStuckDeliveries := by
  refine Orders.stmt True.intro fun now => Orders.stmt True.intro fun logIds => ?_
  exact .forEach fun logId _ => enqueueDelivery_orders (some logId)

theorem enqueueStuckBatches_orders : Orders enqueueStuckBatches := by
  refine Orders.stmt True.intro fun now => Orders.stmt True.intro fun rows => ?_
  exact .forEach fun row _ => (forceCloseBatch_orders row.1).bind enqueueDelivery_orders

theorem deliverBatch_orders (logId : Uuid) : Orders (deliverBatch cfg logId) := by
  have does : ∀ s : Stmt, s.delivering → s.unlisted := by
    intro s h
    unfold Stmt.delivering at h
    split at h <;> first | exact True.intro | exact h.elim
  exact .of_each (F := fun _ => True)
    (deliverBatch_does does (fun _ => True.intro) True.intro (fun _ _ _ => True.intro) logId)

theorem unlisted_serves : Serves Stmt.unlisted where
  reads m s h := reading_unlisted m s h
  commits := True.intro
  sets _ _ _ := True.intro
  aborts _ := True.intro
  deletes _ := True.intro

theorem taskProgram_orders (task : Task) : Orders (taskProgram lib cfg task) := by
  cases task with
  | job j =>
    cases j with
    | processMarket m => exact processMarket_orders m
    | processCandidate m candidate batchId => exact processCandidate_orders m
    | deliverBatch logId => exact deliverBatch_orders logId
  | subscribe body =>
    exact .of_each (subscribe_does unlisted_serves (fun _ _ => True.intro) True.intro
      (fun _ _ => True.intro) (fun _ _ => True.intro) body)
  | unsubscribe marketId => exact .of_each (unsubscribe_does unlisted_serves (fun _ _ => True.intro) marketId)
  | updateMarket marketId body =>
    exact .of_each (updateMarket_does unlisted_serves (fun _ _ => True.intro)
      (fun _ _ => True.intro) marketId body)
  | enqueueDueMarkets =>
    exact .of_each (F := fun _ => True) (enqueueDueMarkets_does reading_unlisted fun _ _ => True.intro)
  | enqueueStuckDeliveries => exact enqueueStuckDeliveries_orders
  | enqueueStuckBatches => exact enqueueStuckBatches_orders
  | resolveBatchCandidate m b h outcome item =>
    exact (resolveBatchCandidate_orders b h outcome item).bind enqueueDelivery_orders
  | forceCloseBatch m b => exact (forceCloseBatch_orders b).bind enqueueDelivery_orders
  | openBatch m n =>
    exact .of_each (F := fun _ => True) (openBatch_does True.intro (fun _ _ _ => True.intro) m n)

end Tasks

/-- The ids are those of stored items in the order of a delivery, or there is one at most. -/
def Tables.Sorts (t : Tables) (ids : List Uuid) : Prop :=
  ids.length ≤ 1 ∨ ∃ items : List NewsItem, ids = items.map (·.id) ∧ isOrdered items = true ∧
    ∀ o ∈ items, o.deliver ∈ t.items

theorem Tables.Sorts.mono {t t' : Tables} {ids : List Uuid} (h : t.Sorts ids)
    (kept : ∀ o ∈ t.items, o ∈ t'.items) : t'.Sorts ids := by
  rcases h with short | ⟨items, same, ordered, stored⟩
  · exact .inl short
  · exact .inr ⟨items, same, ordered, fun o ho => kept _ (stored o ho)⟩

/-- What a process has read and staged stays sorted as the rows go on. -/
structure Sorting (p : Program Unit) (l : List Write) (db : Database) : Prop where
  program : ∃ last, p.Obeys lastSaid (fun _ _ => True) (fun _ _ => True) last ∧
    ∀ m b items, last = some ⟨.batchItems m b, items⟩ → isOrdered items = true ∧
      ∀ o ∈ items, o.deliver ∈ (db.after l).tables.items
  staged : ∀ log ∈ l.filterMap Write.log, (db.after l).tables.Sorts log.newsItemIds

theorem append_kept (db : Database) (l k : List Write) :
    ∀ o ∈ (db.after l).tables.items, o ∈ (db.after (l ++ k)).tables.items := by
  intro o ho
  rw [after_items] at ho ⊢
  rw [List.filterMap_append, ← List.append_assoc]
  exact List.mem_append_left _ ho

theorem after_kept (db : Database) (k l : List Write) :
    ∀ o ∈ (db.after l).tables.items, o ∈ ((db.after k).after l).tables.items := by
  intro o ho
  rw [after_items] at ho ⊢
  rw [after_items]
  rcases List.mem_append.mp ho with old | new
  · exact List.mem_append_left _ (List.mem_append_left _ old)
  · exact List.mem_append_right _ new

theorem Sorting.after {p : Program Unit} {l : List Write} {db : Database} (h : Sorting p l db)
    (k : List Write) : Sorting p l (db.after k) where
  program := by
    obtain ⟨last, obeys, read⟩ := h.program
    refine ⟨last, obeys, fun m b items same => ?_⟩
    obtain ⟨ordered, stored⟩ := read m b items same
    exact ⟨ordered, fun o ho => after_kept db k l _ (stored o ho)⟩
  staged log hl := (h.staged log hl).mono (after_kept db k l)

section Execution

variable {lib : PyLib} {i : JobId} {s : Stmt} {r : Answer s} {l l' : List Write} {d d' : Data}

/-- The rows that a gathering statement reads are the session's, in their order. -/
theorem read_sorted {m b : Uuid} {items : List NewsItem}
    (hx : exec lib i (.batchItems m b) items l d = some (l', d')) : l' = l ∧ d' = d ∧
      isOrdered items = true ∧ ∀ o ∈ items, o.deliver ∈ (d.db.after l).tables.items := by
  obtain ⟨ok, same, rfl⟩ := answered_eq hx
  simp only [Bool.and_eq_true] at ok
  refine ⟨same, rfl, ok.2, fun o ho => ?_⟩
  have listed := (List.isPerm_iff.mp ok.1).mem_iff.mp ho
  have own := List.mem_of_mem_filter listed
  exact List.mem_map_of_mem (List.mem_of_mem_filter own)

/-- A log that a statement stages is sorted. -/
theorem Sorting.staged_log {next : Answer s → Program Unit} (h : Sorting (.stmt s next) l d.db) {x : Write}
    (writes : s.Writes x) {log : LogHead} (hl : x.log = some log) :
    (d.db.after (l ++ [x])).tables.Sorts log.newsItemIds := by
  obtain ⟨last, obeys, read⟩ := h.program
  have asked := obeys.1
  cases writes with
  | log m b ids u t =>
    obtain rfl := Option.some.inj hl
    rcases asked with ⟨items, said, same⟩ | ⟨id, _, same⟩
    · obtain ⟨ordered, stored⟩ := read m b items said
      exact .inr ⟨items, same, ordered, fun o ho => append_kept _ _ _ _ (stored o ho)⟩
    · have single : ids.length ≤ 1 := by rw [same, List.length_singleton]
      exact .inl single
  | assigned =>
    cases x with
    | insertLog row => exact asked.elim
    | _ => simp [Write.log] at hl
  | _ => simp [Write.log] at hl

theorem Sorting.keeps_staged {next : Answer s → Program Unit} (h : Sorting (.stmt s next) l d.db)
    (hx : exec lib i s r l d = some (l', d')) :
    ∀ log ∈ l'.filterMap Write.log, (d'.db.after l').tables.Sorts log.newsItemIds := by
  have wrote : ∀ x : Write, (∀ log, x.log = some log → s.Writes x) →
      ∀ log ∈ (l ++ [x]).filterMap Write.log, (d.db.after (l ++ [x])).tables.Sorts log.newsItemIds := by
    intro x writes log hl
    rw [List.filterMap_append] at hl
    rcases List.mem_append.mp hl with old | new
    · exact (h.staged log old).mono (append_kept _ _ _)
    · obtain ⟨y, hy, log_eq⟩ := List.mem_filterMap.mp new
      obtain rfl := List.mem_singleton.mp hy
      exact h.staged_log (writes log log_eq) log_eq
  cases exec_outcome hx with
  | staged x writes => exact wrote x fun _ _ => writes
  | drewStaged _ x _ writes => exact wrote x fun _ _ => writes
  | drewBatch u row => exact wrote (.insertBatch row) fun log none => by simp [Write.log] at none
  | committed | marketInserted => simp
  | _ => exact h.staged

theorem Sorting.commits_sorted {next : Answer s → Program Unit} (h : Sorting (.stmt s next) l d.db)
    (hx : exec lib i s r l d = some (l', d')) :
    ∀ log ∈ d'.db.tables.logs, log ∈ d.db.tables.logs ∨ d'.db.tables.Sorts log.newsItemIds := by
  have committed : ∀ log ∈ (d.db.after l).tables.logs,
      log ∈ d.db.tables.logs ∨ (d.db.after l).tables.Sorts log.newsItemIds := by
    intro log hl
    rw [after_logs] at hl
    exact (List.mem_append.mp hl).imp_right (h.staged log)
  cases exec_outcome hx with
  | committed => exact committed
  | marketInserted => exact committed
  | _ => exact fun log hl => .inl hl

/-- A statement keeps its own session sorted. -/
theorem Sorting.exec {next : Answer s → Program Unit} (h : Sorting (.stmt s next) l d.db)
    (hx : exec lib i s r l d = some (l', d')) : Sorting (next r) l' d'.db where
  program := by
    obtain ⟨last, obeys, _⟩ := h.program
    refine ⟨some ⟨s, r⟩, obeys.2 r True.intro, fun m b items same => ?_⟩
    cases Option.some.inj same
    obtain ⟨rfl, rfl, sorted⟩ := read_sorted hx
    exact sorted
  staged := h.keeps_staged hx

end Execution

/-- Every session and every committed log of the world is sorted. -/
structure Sorted (w : NewsWorld) : Prop where
  sessions : ∀ i p l, w.proc i = some (p, l) → Sorting p l w.data.db
  logs : ∀ log ∈ w.data.db.tables.logs, w.data.db.tables.Sorts log.newsItemIds

section Runs

variable {lib : PyLib} {admits : Admits} {w w' : NewsWorld}

theorem Sorted.frame (h : Sorted w) {i : JobId} {q : Option (Program Unit × List Write)} {d : Data}
    {k : List Write} (after : d.db = w.data.db.after k)
    (own : ∀ p l, q = some (p, l) → Sorting p l d.db) :
    ∀ j p l, (w.set i q d).proc j = some (p, l) → Sorting p l (w.set i q d).data.db := by
  intro j p l live
  rw [World.set_data]
  by_cases same : j = i
  · subst j
    rw [World.set_self] at live
    exact own p l live
  · rw [World.set_other w same] at live
    exact after ▸ (h.sessions j p l live).after k

theorem Sorted.step (h : Sorted w) (step : Step (newsSys lib admits) w w') : Sorted w' := by
  obtain ⟨k, grown⟩ := step_after step
  have kept : ∀ o ∈ w.data.db.tables.items, o ∈ w'.data.db.tables.items := by
    intro o ho
    rw [grown]
    exact append_kept w.data.db [] k o ho
  cases step with
  | @exec i s next l l' d' r hp hx =>
    have hx : exec lib i s r l w.data = some (l', d') := hx
    have session := h.sessions _ _ _ hp
    refine ⟨h.frame grown fun p l₁ own => ?_, fun log hl => ?_⟩
    · obtain ⟨rfl, rfl⟩ := Prod.mk.inj (Option.some.inj own)
      exact session.exec hx
    · rcases session.commits_sorted hx log hl with old | new
      · exact (h.logs log old).mono kept
      · exact new
  | @start i job p d' hp hs =>
    obtain ⟨_, _, _, rfl, rfl⟩ := @newsSys_start lib admits _ _ _ _ _ _ hs
    refine ⟨h.frame grown fun p l own => ?_, h.logs⟩
    obtain ⟨rfl, rfl⟩ := Prod.mk.inj (Option.some.inj own)
    exact ⟨⟨none, taskProgram_orders _ none, by simp⟩, by simp [newsSys]⟩
  | stop hp => exact ⟨h.frame grown (by simp), h.logs⟩
  | @env t d' he =>
    obtain ⟨_, rfl⟩ := @newsSys_env lib admits _ _ _ he
    exact ⟨h.sessions, h.logs⟩

/-- In every reachable state every log lists its items in the order of a delivery. -/
theorem sorted_reachable {d₀ : Data} (h₀ : d₀.Initial) (reach : Reachable (newsSys lib admits) d₀ w) :
    Sorted w := by
  induction reach with
  | refl => exact ⟨by simp, by simp [Database.tables, h₀.logs]⟩
  | tail _ step ih => exact ih.step step

end Runs

end NewsNotifier
