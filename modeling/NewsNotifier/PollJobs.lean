import NewsNotifier.NewsSystem
import NewsNotifier.TaskStatements

namespace NewsNotifier

open Interleaving

/-- A `process_market` job of market `m`. -/
def Job.polls (m : Uuid) : Job → Bool
  | .processMarket m' => m' = m
  | _ => false

def Task.polls (m : Uuid) : Task → Bool
  | .job j => j.polls m
  | _ => false

/-- A running poll that has not enqueued its successor. -/
def Running.heads (m : Uuid) (e : Running) : Bool := e.task.polls m && !e.spawned

/-- The live polls of a market, where a running one counts together with its successor. -/
def Data.heads (d : Data) (m : Uuid) : Nat :=
  d.redis.queue.countP (·.job.polls m) + d.redis.running.countP (Running.heads m)

/-- Some `process_market` job of the market is queued or running. -/
def Data.hasPoll (d : Data) (m : Uuid) : Bool :=
  d.redis.queue.any (·.job.polls m) || d.redis.running.any (·.task.polls m)

def Data.entriesOf (d : Data) (i : JobId) : List Running := d.redis.running.filter (·.id = i)

/-- Jobs start from the queue, no earlier than they were deferred to; requests and crons have no job id. -/
def queueTask : Admits := fun i task _ d =>
  match task, i with
  | .job j, _ => d.redis.queue.any fun q =>
      q.id = i && q.job = j && q.deferUntil.all fun t => decide (t ≤ d.clock)
  | _, .call _ => true
  | _, _ => false

theorem Data.tasksOf_eq (d : Data) (i : JobId) : d.tasksOf i = (d.entriesOf i).map (·.task) := rfl

/-- All that one statement can do to the queue and the running jobs. -/
theorem exec_redis {lib : PyLib} {i : JobId} {s : Stmt} {r : Answer s} {l l' : List Write} {d d' : Data}
    (h : exec lib i s r l d = some (l', d')) :
    (d'.redis.queue = d.redis.queue ∧ d'.redis.running = d.redis.running) ∨
    ∃ q, s = .enqueueJob q.id q.job q.deferUntil ∧ d.redis.live q.id = false ∧ d' = d.enqueue i q := by
  cases exec_outcome h with
  | enqueued q e free => exact .inr ⟨q, e, free, rfl⟩
  | _ => exact .inl ⟨rfl, rfl⟩

/-- The statements that enqueue no poll. -/
def Stmt.noPoll : Stmt → Prop
  | .enqueueJob _ (.processMarket _) _ => False
  | _ => True

theorem Stmt.reading.noPoll {m : Uuid} {s : Stmt} (h : s.reading m) : s.noPoll := by
  cases s <;> first | exact True.intro | exact False.elim h

theorem Stmt.batching.noPoll {m : Uuid} {s : Stmt} (h : s.batching m) : s.noPoll := by
  unfold Stmt.batching at h
  split at h <;> first | exact True.intro | exact h.elim

section Counts

variable {d d' : Data} {i j : JobId} {q : Queued} {m : Uuid} {task : Task} {cfg : Settings}

theorem heads_same (queue : d'.redis.queue = d.redis.queue) (running : d'.redis.running = d.redis.running) :
    d'.heads m = d.heads m := by
  simp only [Data.heads, queue, running]

/-- The running jobs by the process `i` and the others. -/
theorem heads_split (d : Data) (i : JobId) (m : Uuid) : d.redis.running.countP (Running.heads m) =
    (d.entriesOf i).countP (Running.heads m) +
      (d.redis.running.filter (·.id ≠ i)).countP (Running.heads m) := by
  rw [List.countP_eq_countP_filter_add d.redis.running (Running.heads m) (·.id = i)]
  simp [Data.entriesOf]

theorem polls_of_other (h : q.job.isProcessMarket = false) : q.job.polls m = false := by
  cases hq : q.job with
  | processMarket m' => simp [hq, Job.isProcessMarket] at h
  | _ => rfl

theorem enqueue_running (h : q.job.isProcessMarket = false) :
    (d.enqueue i q).redis.running = d.redis.running := by
  simp [Data.enqueue, h]

theorem heads_enqueue_other (h : q.job.isProcessMarket = false) : (d.enqueue i q).heads m = d.heads m := by
  rw [Data.heads, enqueue_running h]
  simp [Data.enqueue, Data.heads, polls_of_other h]

/-- An enqueued poll: the queue has one more, and `i` has spawned. -/
theorem heads_enqueue_poll (h : q.job.isProcessMarket = true) :
    (d.enqueue i q).heads m + (d.entriesOf i).countP (Running.heads m) =
      d.heads m + if q.job.polls m then 1 else 0 := by
  have running : (d.enqueue i q).redis.running.countP (Running.heads m) =
      (d.redis.running.filter (·.id ≠ i)).countP (Running.heads m) := by
    simp only [Data.enqueue, h, and_true, List.countP_map, List.countP_filter]
    refine List.countP_congr fun e _ => ?_
    by_cases he : e.id = i <;> simp [he, Running.heads]
  have queue : (d.enqueue i q).redis.queue.countP (·.job.polls m) =
      d.redis.queue.countP (·.job.polls m) + if q.job.polls m then 1 else 0 := by
    simp [Data.enqueue, List.countP_append, List.countP_cons]
  rw [Data.heads, running, queue, Data.heads, heads_split d i m]
  omega

theorem heads_enqueue_le : (d.enqueue i q).heads m ≤ d.heads m + if q.job.polls m then 1 else 0 := by
  cases h : q.job.isProcessMarket with
  | false =>
    rw [heads_enqueue_other h]
    omega
  | true =>
    have := @heads_enqueue_poll d i q m h
    omega

theorem entriesOf_enqueue (ne : j ≠ i) : (d.enqueue i q).entriesOf j = d.entriesOf j := by
  simp only [Data.entriesOf, Data.enqueue, List.filter_map]
  have id : ∀ e : Running, (if e.id = i ∧ q.job.isProcessMarket = true then
      { e with spawned := true } else e).id = e.id := fun e => by split <;> rfl
  simp only [Function.comp_def, id]
  refine (List.map_congr_left fun e he => ?_).trans (List.map_id _)
  have own : e.id = j := by simpa using (List.mem_filter.mp he).2
  simp [own, ne]

theorem entriesOf_enqueue_other (h : q.job.isProcessMarket = false) :
    (d.enqueue i q).entriesOf j = d.entriesOf j := by
  rw [Data.entriesOf, enqueue_running h, Data.entriesOf]

/-- A poll that starts leaves the queue. -/
theorem heads_begin (h : queueTask i task cfg d = true) : (d.begin i task cfg).heads m ≤ d.heads m := by
  have queue := List.countP_eq_countP_filter_add d.redis.queue (·.job.polls m) (·.id = i)
  have running := heads_split d i m
  have started : (Running.heads m ⟨i, task, cfg, false⟩).toNat ≤
      (d.redis.queue.filter (·.id = i)).countP (·.job.polls m) := by
    cases task with
    | job j =>
      cases hp : j.polls m with
      | false => simp [Running.heads, Task.polls, hp]
      | true =>
        simp only [queueTask, List.any_eq_true, Bool.and_eq_true, decide_eq_true_eq] at h
        obtain ⟨q, hq, ⟨own, job⟩, _⟩ := h
        have pos : 0 < (d.redis.queue.filter (·.id = i)).countP (·.job.polls m) :=
          List.countP_pos_iff.mpr ⟨q, List.mem_filter.mpr ⟨hq, by simpa using own⟩, by simpa [job] using hp⟩
        exact (Bool.toNat_le _).trans pos
    | _ => simp [Running.heads, Task.polls]
  simp only [Data.heads, Data.begin, List.countP_cons]
  simp only [decide_not] at running queue ⊢
  cases hb : Running.heads m ⟨i, task, cfg, false⟩ <;> rw [hb] at started <;>
    simp only [Bool.toNat_false, Bool.toNat_true] at started <;> simp <;> omega

theorem heads_finish : ((d.release i).finish i).heads m ≤ d.heads m := by
  have le := (List.filter_sublist (p := fun e : Running => decide (e.id ≠ i))
    (l := d.redis.running)).countP_le (p := Running.heads m)
  simp only [Data.heads, Data.finish, Data.release]
  omega

theorem exec_noPoll {lib : PyLib} {s : Stmt} {r : Answer s} {l l' : List Write} (hs : s.noPoll)
    (h : exec lib i s r l d = some (l', d')) :
    (∀ m, d'.heads m = d.heads m) ∧ ∀ j, d'.entriesOf j = d.entriesOf j := by
  rcases exec_redis h with ⟨queue, running⟩ | ⟨q, rfl, _, rfl⟩
  · exact ⟨fun m => heads_same queue running, fun j => by rw [Data.entriesOf, running, Data.entriesOf]⟩
  · have other : q.job.isProcessMarket = false := by
      cases hq : q.job with
      | processMarket m => simp [hq, Stmt.noPoll] at hs
      | _ => rfl
    exact ⟨fun m => heads_enqueue_other other, fun j => entriesOf_enqueue_other other⟩

theorem begin_entriesOf (ne : j ≠ i) : (d.begin i task cfg).entriesOf j = d.entriesOf j := by
  have keep : ∀ e : Running, (decide (e.id = j) && !decide (e.id = i)) = decide (e.id = j) := by
    intro e
    by_cases h : e.id = j <;> simp [h, ne]
  simp [Data.entriesOf, Data.begin, Ne.symm ne, List.filter_filter, keep]

theorem begin_own : (d.begin i task cfg).entriesOf i = [⟨i, task, cfg, false⟩] := by
  simp [Data.entriesOf, Data.begin]

theorem finish_entriesOf (ne : j ≠ i) : ((d.release i).finish i).entriesOf j = d.entriesOf j := by
  have keep : ∀ e : Running, (decide (e.id = j) && !decide (e.id = i)) = decide (e.id = j) := by
    intro e
    by_cases h : e.id = j <;> simp [h, ne]
  simp [Data.entriesOf, Data.finish, Data.release, List.filter_filter, keep]

end Counts

end NewsNotifier
