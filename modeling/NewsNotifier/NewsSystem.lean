import NewsNotifier.ServicePrograms
import NewsNotifier.InterleavedContracts

namespace NewsNotifier

open Interleaving

/-- A delivery runs under the id of its log and nothing else does. -/
def Task.named : JobId → Task → Bool
  | .deliverBatch logId, .job (.deliverBatch logId') => logId = logId'
  | .deliverBatch _, _ => false
  | _, .job (.deliverBatch _) => false
  | _, _ => true

theorem named_delivery {logId : Uuid} {task : Task} (h : task.named (.deliverBatch logId) = true) :
    task = .job (.deliverBatch logId) := by
  cases task with
  | job j =>
    cases j with
    | deliverBatch id =>
      obtain rfl : logId = id := by simpa [Task.named] using h
      rfl
    | _ => simp [Task.named] at h
  | _ => simp [Task.named] at h

def Database.hasBatch (db : Database) (batchId marketId : Uuid) : Bool :=
  db.batches.any fun b => b.id = batchId && b.marketId = marketId

/-- A batch is committed before anyone is given its id, and expects at least one candidate. -/
def Task.grounded (db : Database) : Task → Bool
  | .job (.processCandidate marketId _ (some batchId)) => db.hasBatch batchId marketId
  | .resolveBatchCandidate marketId batchId _ _ _ => db.hasBatch batchId marketId
  | .forceCloseBatch marketId batchId => db.hasBatch batchId marketId
  | .openBatch _ expectedCount => 0 < expectedCount
  | _ => true

/-- A resolution called on its own names no item, as `process_market` calls it. -/
def Task.plain : Task → Bool
  | .resolveBatchCandidate _ _ _ _ newsItemId => newsItemId.isNone
  | _ => true

def Data.begin (d : Data) (i : JobId) (task : Task) (cfg : Settings) : Data :=
  { d with redis := { d.redis with
      queue := d.redis.queue.filter (·.id ≠ i)
      running := ⟨i, task, cfg, false⟩ :: d.redis.running.filter (·.id ≠ i) } }

def Data.finish (d : Data) (i : JobId) : Data :=
  { d with redis := { d.redis with running := d.redis.running.filter (·.id ≠ i) } }

/-- Which task may start under which id: the part of the environment that a result fixes. -/
abbrev Admits := JobId → Task → Settings → Data → Bool

def anyTask : Admits := fun _ _ _ _ => true

def plainTask : Admits := fun _ task _ _ => task.plain

/-- The workers, the API and the crons over one database and one Redis. A process may end at any
point, by returning, raising or being killed; what it has not committed is lost. -/
def newsSys (lib : PyLib) (admits : Admits) :
    Sys JobId Stmt Answer Raised (List Write) Data (Task × Settings) Time where
  idle := []
  exec := exec lib
  start i job d :=
    if job.1.named i && job.1.grounded d.db && admits i job.1 job.2 d then
      some (taskProgram lib job.2 job.1, d.begin i job.1 job.2)
    else none
  stop i d := (d.release i).finish i
  env t d := if d.clock ≤ t then some { d with clock := t } else none

abbrev NewsWorld := World JobId Stmt Answer Raised (List Write) Data

/-- Which answers a restricted run admits. -/
abbrev Allows := JobId → (s : Stmt) → Answer s → List Write → Data → Bool

/-- Before the first poll: any markets and sources, nothing stored, queued or sent. -/
structure Data.Initial (d : Data) : Prop where
  batches : d.db.batches = []
  items : d.db.items = []
  candidates : d.db.candidates = []
  logs : d.db.logs = []
  locks : d.locks = []
  queue : d.redis.queue = []
  running : d.redis.running = []
  sent : d.sent = []
  markets : (d.db.markets.map (·.id)).Nodup
  drawn : (d.drawn.map (·.1)).Nodup
  marketDrawn : ∀ m ∈ d.db.markets, m.id ∈ d.drawn.map (·.1)
  accepted : d.accepted = []
  cycles : d.cycles = []

theorem newsSys_start {lib : PyLib} {admits : Admits} {i : JobId} {task : Task} {cfg : Settings}
    {d d' : Data} {p : Program Unit} (h : (newsSys lib admits).start i (task, cfg) d = some (p, d')) :
    task.named i = true ∧ task.grounded d.db = true ∧ admits i task cfg d = true ∧
      p = taskProgram lib cfg task ∧ d' = d.begin i task cfg := by
  simp only [newsSys] at h
  split at h
  next ok =>
    simp only [Bool.and_eq_true] at ok
    obtain ⟨rfl, rfl⟩ := Prod.mk.inj (Option.some.inj h)
    exact ⟨ok.1.1, ok.1.2, ok.2, rfl, rfl⟩
  next => simp at h

theorem newsSys_env {lib : PyLib} {admits : Admits} {t : Time} {d d' : Data}
    (h : (newsSys lib admits).env t d = some d') : d.clock ≤ t ∧ d' = { d with clock := t } := by
  simp only [newsSys] at h
  split at h
  next le => exact ⟨le, (Option.some.inj h).symm⟩
  next => simp at h

/-- Only the locks and Redis are other than before, and the clock not earlier. -/
def Data.Idles (d d' : Data) : Prop :=
  ∃ locks redis clock, d.clock ≤ clock ∧ d' = { d with locks := locks, redis := redis, clock := clock }

/-- A step executes a statement, or leaves the rows and the records. -/
theorem newsSys_step {lib : PyLib} {admits : Admits} {allow : Allows} {w w' : NewsWorld}
    (step : Step ((newsSys lib admits).restrict allow) w w') :
    (∃ i s r l l', allow i s r l w.data = true ∧ exec lib i s r l w.data = some (l', w'.data)) ∨
      w.data.Idles w'.data := by
  cases step with
  | @exec i s next l l' d' r hp hx =>
    obtain ⟨allowed, executed⟩ := Sys.exec_of_restrict hx
    exact .inl ⟨i, s, r, l, l', allowed, executed⟩
  | @start i job p d' hp hs =>
    obtain ⟨_, _, _, _, rfl⟩ := @newsSys_start lib admits _ _ _ _ _ _ hs
    exact .inr ⟨_, _, _, le_rfl, rfl⟩
  | stop hp => exact .inr ⟨_, _, _, le_rfl, rfl⟩
  | @env t d' he =>
    obtain ⟨later, rfl⟩ := @newsSys_env lib admits _ _ _ he
    exact .inr ⟨_, _, _, later, rfl⟩

/-- What the process `i` is running. -/
def Data.tasksOf (d : Data) (i : JobId) : List Task :=
  (d.redis.running.filter (·.id = i)).map (·.task)

/-- A statement never changes what the processes are running. -/
theorem exec_tasksOf {lib : PyLib} {i : JobId} {s : Stmt} {r : Answer s} {l l' : List Write}
    {d d' : Data} (h : exec lib i s r l d = some (l', d')) (j : JobId) : d'.tasksOf j = d.tasksOf j := by
  cases exec_outcome h with
  | enqueued q =>
    simp only [Data.tasksOf, Data.enqueue, List.filter_map, List.map_map]
    have task : ∀ e : Running, (if e.id = i ∧ q.job.isProcessMarket = true then
        { e with spawned := true } else e).task = e.task := fun e => by split <;> rfl
    have id : ∀ e : Running, (if e.id = i ∧ q.job.isProcessMarket = true then
        { e with spawned := true } else e).id = e.id := fun e => by split <;> rfl
    simp only [Function.comp_def, task, id]
  | _ => rfl

theorem begin_tasksOf (d : Data) (i : JobId) (task : Task) (cfg : Settings) :
    (d.begin i task cfg).tasksOf i = [task] ∧ ∀ j, j ≠ i → (d.begin i task cfg).tasksOf j = d.tasksOf j := by
  constructor
  · simp [Data.tasksOf, Data.begin]
  · intro j ne
    have keep : ∀ e : Running, (decide (e.id = j) && !decide (e.id = i)) = decide (e.id = j) := by
      intro e
      by_cases h : e.id = j <;> simp [h, ne]
    simp [Data.tasksOf, Data.begin, Ne.symm ne, List.filter_filter, keep]

theorem finish_tasksOf (d : Data) (i : JobId) {j : JobId} (ne : j ≠ i) :
    ((d.release i).finish i).tasksOf j = d.tasksOf j := by
  have keep : ∀ e : Running, (decide (e.id = j) && !decide (e.id = i)) = decide (e.id = j) := by
    intro e
    by_cases h : e.id = j <;> simp [h, ne]
  simp [Data.tasksOf, Data.finish, Data.release, List.filter_filter, keep]

end NewsNotifier
