import NewsNotifier.RecoveryRuns

namespace NewsNotifier

open Interleaving Prog

section Quiet

variable {lib : PyLib} {d₀ : Data} {w w' : NewsWorld}

/-- Locks are held, and Redis entries left, by live processes only. -/
structure Attended (w : NewsWorld) : Prop where
  locks : ∀ e ∈ w.data.locks, w.proc e.2 ≠ none
  running : ∀ e ∈ w.data.redis.running, w.proc e.id ≠ none

theorem exec_running {i : JobId} {s : Stmt} {r : Answer s} {l l' : List Write} {d d' : Data}
    (h : exec lib i s r l d = some (l', d')) : d'.redis.running.map (·.id) = d.redis.running.map (·.id) := by
  cases exec_outcome h with
  | enqueued q =>
    simp only [Data.enqueue, List.map_map]
    refine List.map_congr_left fun e _ => ?_
    simp only [Function.comp_apply]
    split <;> rfl
  | _ => rfl

theorem exec_locks {i : JobId} {s : Stmt} {r : Answer s} {l l' : List Write} {d d' : Data}
    (h : exec lib i s r l d = some (l', d')) : ∀ e ∈ d'.locks, e ∈ d.locks ∨ e.2 = i := by
  intro e he
  cases exec_outcome h with
  | locked key => exact (List.mem_cons.mp he).elim (fun same => .inr (same ▸ rfl)) .inl
  | committed | marketInserted => exact .inl (List.mem_of_mem_filter he)
  | _ => exact .inl he

theorem Attended.step (h : Attended w) (step : Step (newsSys lib plainTask) w w') : Attended w' := by
  cases step with
  | @exec i s next l l' d' r hp hx =>
    have alive : ∀ j, w.proc j ≠ none → (w.set i (some (next r, l')) d').proc j ≠ none := by
      intro j live
      by_cases same : j = i
      · rw [same, World.set_self]
        exact Option.some_ne_none _
      · rwa [World.set_other w same]
    refine ⟨fun e he => ?_, fun e he => ?_⟩
    · rcases exec_locks hx e he with old | own
      · exact alive _ (h.locks e old)
      · rw [own, World.set_self]
        exact Option.some_ne_none _
    · have mem : e.id ∈ d'.redis.running.map (·.id) := List.mem_map_of_mem he
      rw [exec_running hx] at mem
      obtain ⟨e', he', same⟩ := List.mem_map.mp mem
      exact alive _ (same ▸ h.running e' he')
  | @start i job p d' hp hs =>
    obtain ⟨_, _, _, rfl, rfl⟩ := newsSys_start hs
    have alive : ∀ q : Program Unit × List Write, ∀ d j, w.proc j ≠ none → (w.set i (some q) d).proc j ≠ none := by
      intro q d j live
      have other : j ≠ i := by
        rintro rfl
        exact live hp
      rwa [World.set_other w other]
    refine ⟨fun e he => alive _ _ _ (h.locks e he), fun e he => ?_⟩
    rcases List.mem_cons.mp he with rfl | old
    · rw [World.set_self]
      exact Option.some_ne_none _
    · exact alive _ _ _ (h.running e (List.mem_of_mem_filter old))
  | @stop i hp =>
    have alive : ∀ d j, j ≠ i → w.proc j ≠ none → (w.set i none d).proc j ≠ none := by
      intro d j other live
      rwa [World.set_other w other]
    refine ⟨fun e he => ?_, fun e he => ?_⟩
    · obtain ⟨mem, other⟩ := List.mem_filter.mp he
      exact alive _ _ (of_decide_eq_true other) (h.locks e mem)
    · obtain ⟨mem, other⟩ := List.mem_filter.mp he
      exact alive _ _ (of_decide_eq_true other) (h.running e mem)
  | @env t d' he =>
    obtain ⟨_, rfl⟩ := newsSys_env he
    exact ⟨h.locks, h.running⟩

theorem attended (h₀ : d₀.Initial) (reach : Reachable (newsSys lib plainTask) d₀ w) : Attended w := by
  induction reach with
  | refl => exact ⟨by simp [h₀.locks], by simp [h₀.running]⟩
  | tail _ step ih => exact ih.step step

/-- At rest nothing is locked and nothing runs. -/
theorem Attended.rest (h : Attended w) (idle : ∀ i, w.proc i = none) : w.data.locks = [] ∧ w.data.redis.running = [] :=
  ⟨List.eq_nil_iff_forall_not_mem.mpr fun e he => h.locks e he (idle _),
    List.eq_nil_iff_forall_not_mem.mpr fun e he => h.running e he (idle _)⟩

/-- All that runs can be stopped, which leaves the rows, and the clock may then pass any time. -/
theorem comes_to_rest (h₀ : d₀.Initial) (reach : Reachable (newsSys lib plainTask) d₀ w) (t : Time) :
    ∃ w', Restarts (newsSys lib plainTask) w w' ∧ (∀ i, w'.proc i = none) ∧ w'.data.db = w.data.db ∧
      t ≤ w'.data.clock ∧ w'.data.locks = [] ∧ w'.data.redis.running = [] := by
  obtain ⟨w₁, run, idle, same⟩ := Steps.rest (P := fun d => d.db = w.data.db) reach (fun _ => rfl)
    (fun _ _ same => same) rfl
  obtain ⟨locks, running⟩ := (attended h₀ (reach.trans run.steps)).rest idle
  have passes : (newsSys lib plainTask).env (max w₁.data.clock t) w₁.data =
      some { w₁.data with clock := max w₁.data.clock t } := by simp [newsSys]
  exact ⟨_, run.env passes, idle, same, le_max_right _ _, locks, running⟩

end Quiet

section Sweeps

variable {lib : PyLib} {i : JobId} {l : List Write} {d : Data} {m b : Uuid} {db db' : Database}

/-- The items that the batch has are all in a log that is yet to be delivered, by a job that is live, or it has
none. -/
def Gathered (m b : Uuid) (d : Data) : Prop :=
  (∀ o ∈ d.db.items, o.marketId = m → o.batchId ≠ some b) ∨
    ∃ log ∈ d.db.logs, log.marketId = m ∧ log.batchId = b ∧ log.status = .pending ∧
      d.redis.live (.deliverBatch log.id) = true ∧
      ∀ o ∈ d.db.items, o.marketId = m → o.batchId = some b → o.id ∈ log.newsItemIds

/-- No job is lost, and none starts or ends. -/
structure KeepsJobs (d d' : Data) : Prop where
  running : d'.redis.running.map (·.id) = d.redis.running.map (·.id)
  live : ∀ id, d.redis.live id = true → d'.redis.live id = true

theorem KeepsJobs.trans {d d' d'' : Data} (h : KeepsJobs d d') (h' : KeepsJobs d' d'') : KeepsJobs d d'' :=
  ⟨h'.running.trans h.running, fun id live => h'.live id (h.live id live)⟩

/-- What closing a batch by force does to the rows and the jobs. -/
structure Closes (m b : Uuid) (d d' : Data) : Prop where
  markets : d'.db.markets = d.db.markets
  items : d'.db.items = d.db.items
  logs : d.db.logs ⊆ d'.db.logs
  others : ∀ row ∈ d.db.batches, row.id ≠ b → row ∈ d'.db.batches
  closed : ∀ row ∈ d.db.batches, row.id = b ∨ row.status = .closed →
    ∃ row' ∈ d'.db.batches, row'.id = row.id ∧ row'.status = .closed
  jobs : KeepsJobs d d'
  gathers : (∃ row ∈ d.db.batches, row.id = b ∧ row.status = .opened) → Gathered m b d'

theorem setBatch_closed {n : Nat} (row : NewsBatch) (hr : row ∈ db.batches) (h : row.id = b ∨ row.status = .closed) :
    ∃ row' ∈ KeyedRows.update NewsBatch.id b (NewsBatch.set n .closed) db.batches, row'.id = row.id ∧
      row'.status = .closed := by
  refine ⟨_, KeyedRows.mem_update.mpr ⟨row, hr, rfl⟩, ?_⟩
  split
  next => exact ⟨rfl, rfl⟩
  next other => exact ⟨rfl, h.resolve_left other⟩

theorem live_enqueue {d : Data} {i : JobId} {q : Queued} {id : JobId} (live : d.redis.live id = true) :
    (d.enqueue i q).redis.live id = true := by
  simp only [Redis.live, Bool.or_eq_true, List.any_eq_true] at live ⊢
  rcases live with ⟨e, he, own⟩ | ⟨e, he, own⟩
  · exact .inl ⟨e, List.mem_append_left _ he, own⟩
  · exact .inr ⟨_, List.mem_map_of_mem he, by split <;> exact own⟩

/-- arq accepts the job, or has it already; then it is live. -/
theorem enqueueJob_enabled (lib : PyLib) (i : JobId) (q : Queued) (l : List Write) (d : Data) :
    ∃ r d', exec lib i (.enqueueJob q.id q.job q.deferUntil) r l d = some (l, d') ∧ d'.db = d.db ∧ d'.locks = d.locks ∧
      d'.clock = d.clock ∧ KeepsJobs d d' ∧ d'.redis.live q.id = true := by
  by_cases live : d.redis.live q.id = true
  · exact ⟨false, d, by simp [exec, live, answered], rfl, rfl, rfl, ⟨rfl, fun _ h => h⟩, live⟩
  · have hx : exec lib i (.enqueueJob q.id q.job q.deferUntil) true l d = some (l, d.enqueue i q) := by
      simp [exec, live]
    refine ⟨true, d.enqueue i q, hx, rfl, rfl, rfl, ⟨exec_running hx, fun _ h => live_enqueue h⟩, ?_⟩
    simp [Redis.live, Data.enqueue]

theorem enqueueDelivery_can (logId : Option Uuid) {h : List NewsSaid}
    {Q : List NewsSaid → Unit → List Write → Data → Prop}
    (ends : ∀ h' d', d'.db = d.db → d'.locks = d.locks → KeepsJobs d d' →
      (∀ log ∈ logId, d'.redis.live (.deliverBatch log) = true) → Q h' () l d') :
    (enqueueDelivery logId).Can (newsSys lib plainTask) i Q h l d := by
  cases logId with
  | none => exact ends h d rfl rfl ⟨rfl, fun _ h => h⟩ fun _ mem => absurd mem (Option.not_mem_none _)
  | some logId =>
    obtain ⟨r, d', hx, rows, locks, _, keeps, live⟩ :=
      enqueueJob_enabled lib i ⟨.deliverBatch logId, .deliverBatch logId, none⟩ l d
    refine ⟨r, l, d', hx, ends _ d' rows locks keeps fun log mem => ?_⟩
    exact Option.mem_some_iff.mp mem ▸ live

/-- Nothing is staged, no lock is held, and the rows and jobs are as one closing leaves them. -/
def Closing (m b : Uuid) (d : Data) (l : List Write) (d' : Data) : Prop := l = [] ∧ d'.locks = [] ∧ Closes m b d d'

theorem closes_none {d' : Data} (rows : d'.db = d.db) (jobs : KeepsJobs d d')
    (none : d.db.batches.find? (fun row => row.id = b && row.status = .opened) = none) : Closes m b d d' := by
  have shut : ∀ row ∈ d.db.batches, row.id = b → row.status = .closed := by
    intro row hr own
    have unmet := List.find?_eq_none.mp none row hr
    cases status : row.status with
    | opened => simp [own, status] at unmet
    | closed => rfl
  refine ⟨rows ▸ rfl, rows ▸ rfl, rows ▸ List.Subset.refl _, fun row hr _ => rows ▸ hr,
    fun row hr h => ⟨row, rows ▸ hr, rfl, ?_⟩,
    jobs, ?_⟩
  · exact h.elim (shut row hr) id
  · rintro ⟨row, hr, own, status⟩
    simp [shut row hr own] at status

/-- Closing the batch, with a log for its items if it has any. -/
theorem closes_open {n : Nat} (log : Option DeliveryLog) {d' : Data}
    (rows : d'.db = d.db.after (.setBatch b n .closed :: log.toList.map .insertLog)) (jobs : KeepsJobs d d')
    (gathers : Gathered m b d') : Closes m b d d' := by
  have grows : d.db.logs ⊆ d'.db.logs := by
    rw [rows]
    cases log with
    | none => exact List.Subset.refl _
    | some log => exact List.subset_append_left _ _
  have kept : d'.db.batches = KeyedRows.update NewsBatch.id b (NewsBatch.set n .closed) d.db.batches := by
    rw [rows]
    cases log <;> rfl
  refine ⟨by rw [rows]; cases log <;> rfl, by rw [rows]; cases log <;> rfl, grows, fun row hr other => ?_,
    fun row hr h => ?_, jobs, fun _ => gathers⟩
  · rw [kept]
    exact KeyedRows.mem_update.mpr ⟨row, hr, by simp [other]⟩
  · rw [kept]
    exact setBatch_closed row hr h

theorem forceCloseBatch_can {h : List NewsSaid} (free : d.locks = []) :
    ((forceCloseBatch m b).bind enqueueDelivery).Can (newsSys lib plainTask) i (fun _ _ => Closing m b d) h [] d := by
  have released : ∀ {d' : Data}, d'.locks = [(marketLockKey m, i)] → (d'.release i).locks = [] := by
    intro d' held
    simp [Data.release, held]
  refine ⟨(), [], { d with locks := [(marketLockKey m, i)] }, by simp [newsSys, exec, free], ?_⟩
  cases found : d.db.batches.find? (fun row => row.id = b && row.status = .opened) with
  | none =>
    refine ⟨false, [], { d with locks := [(marketLockKey m, i)] }, by simp [newsSys, exec, found, answered], ?_⟩
    refine ⟨(), [], _, rfl, ?_⟩
    exact ⟨rfl, released rfl, closes_none rfl ⟨rfl, fun _ h => h⟩ found⟩
  | some row =>
    let ids := ((d.db.itemsOf m).filter (·.batchId = some b)).insertionSort fun a b => orderedBefore a b = true
    have sorted : (ids.isPerm ((d.db.itemsOf m).filter (·.batchId = some b)) && isOrdered ids) = true :=
      Bool.and_eq_true_iff.mpr ⟨List.isPerm_iff.mpr (List.perm_insertionSort _ _),
        isOrdered_of_pairwise (List.pairwise_insertionSort _ _)⟩
    have listed : ∀ o ∈ d.db.items, o.marketId = m → o.batchId = some b → o ∈ ids := by
      intro o ho market batch
      refine (List.mem_insertionSort _).mpr (List.mem_filter.mpr ⟨List.mem_filter.mpr ⟨ho, ?_⟩, ?_⟩)
      · simpa using market
      · simpa using batch
    refine ⟨true, [.setBatch b row.resolvedCount .closed], { d with locks := [(marketLockKey m, i)] },
      by simp [newsSys, exec, found], ?_⟩
    refine ⟨ids, [.setBatch b row.resolvedCount .closed], { d with locks := [(marketLockKey m, i)] }, if_pos sorted, ?_⟩
    change (Prog.bind (Prog.bind (if ids = [] then _ else _) _) _).Can _ _ _ _ _ _
    by_cases none : ids = []
    · rw [if_pos none]
      refine ⟨(), [], _, rfl, rfl, released rfl, closes_open Option.none rfl ⟨rfl, fun _ h => h⟩
        (.inl fun o ho market batch => ?_)⟩
      have mem := listed o ho market batch
      simp [none] at mem
    · rw [if_neg none]
      let log : DeliveryLog :=
        ⟨freshUuid d, m, b, ids.map (·.id), 0, .pending, Option.none, Option.none, false, [], 0, Option.none⟩
      refine ⟨⟨freshUuid d, 0⟩, [.setBatch b row.resolvedCount .closed, .insertLog log],
        Data.draw { d with locks := [(marketLockKey m, i)] } (freshUuid d) i, if_pos (freshUuid_fresh d), ?_⟩
      refine ⟨(), [], _, rfl, ?_⟩
      refine enqueueDelivery_can (some (freshUuid d)) fun _ d' rows locks jobs live =>
        ⟨rfl, locks.trans (released rfl), closes_open (some log) rows ⟨jobs.running, jobs.live⟩ (.inr ?_)⟩
      refine ⟨log, ?_, rfl, rfl, rfl, live _ rfl, fun o ho market batch => ?_⟩
      · rw [rows]
        exact List.mem_append_right _ (List.mem_singleton_self log)
      · rw [rows] at ho
        exact List.mem_map_of_mem (listed o ho market batch)

/-- The batch is closed, and what it has is gathered. -/
structure Settled (m b : Uuid) (d : Data) : Prop where
  closed : ∃ row ∈ d.db.batches, row.id = b ∧ row.status = .closed
  gathered : Gathered m b d

theorem Settled.closes {m' b' : Uuid} {d' : Data} (h : Settled m b d) (closes : Closes m' b' d d') :
    Settled m b d' := by
  constructor
  · obtain ⟨row, hr, own, closed⟩ := h.closed
    obtain ⟨row', hr', same, closed'⟩ := closes.closed row hr (.inr closed)
    exact ⟨row', hr', same.trans own, closed'⟩
  · refine h.gathered.imp (fun none o ho => none o (closes.items ▸ ho)) ?_
    rintro ⟨log, hl, market, key, status, live, all⟩
    exact ⟨log, closes.logs hl, market, key, status, closes.jobs.live _ live, fun o ho => all o (closes.items ▸ ho)⟩

/-- Where the sweep stands with the batches still to close: the batch is settled or among them. -/
structure Sweeping (m b : Uuid) (d₀ : Data) (rest : List (Uuid × Uuid)) (l : List Write) (d : Data) : Prop where
  nothing : l = []
  free : d.locks = []
  markets : d.db.markets = d₀.db.markets
  items : d.db.items = d₀.db.items
  jobs : KeepsJobs d₀ d
  known : ∀ row ∈ rest, row.1 = b → row.2 = m
  stands : Settled m b d ∨ (∃ row ∈ d.db.batches, row.id = b ∧ row.status = .opened) ∧ (b, m) ∈ rest

theorem Sweeping.round {d₀ : Data} {row : Uuid × Uuid} {rest : List (Uuid × Uuid)} {said : List NewsSaid}
    (h : Sweeping m b d₀ (row :: rest) l d) :
    ((forceCloseBatch row.2 row.1).bind enqueueDelivery).Can (newsSys lib plainTask) i
      (fun _ _ => Sweeping m b d₀ rest) said l d := by
  rw [h.nothing]
  refine (forceCloseBatch_can h.free).mono fun _ _ l' d' ⟨nothing, free, closes⟩ => ?_
  refine ⟨nothing, free, closes.markets.trans h.markets, closes.items.trans h.items, h.jobs.trans closes.jobs,
    fun r hr => h.known r (List.mem_cons_of_mem _ hr), ?_⟩
  rcases h.stands with settled | ⟨⟨batch, hb, own, opened⟩, mem⟩
  · exact .inl (settled.closes closes)
  · by_cases same : row.1 = b
    · have market := h.known row List.mem_cons_self same
      obtain ⟨batch', hb', own', closed⟩ := closes.closed batch hb (.inl (own.trans same.symm))
      have gathered := closes.gathers ⟨batch, hb, own.trans same.symm, opened⟩
      rw [market, same] at gathered
      exact .inl ⟨⟨batch', hb', own'.trans own, closed⟩, gathered⟩
    · refine .inr ⟨⟨batch, closes.others batch hb fun here => same (here ▸ own), own, opened⟩, ?_⟩
      exact (List.mem_cons.mp mem).resolve_left fun here => same (here ▸ rfl)

/-- A live job is queued where only another is running. -/
theorem queued_of_live {id : JobId} (live : d.redis.live id = true) (alone : d.redis.running.map (·.id) = [i])
    (other : id ≠ i) : ∃ q ∈ d.redis.queue, q.id = id := by
  simp only [Redis.live, Bool.or_eq_true, List.any_eq_true, decide_eq_true_eq] at live
  refine live.resolve_right ?_
  rintro ⟨e, he, own⟩
  have same : e.id ∈ d.redis.running.map (·.id) := List.mem_map_of_mem he
  rw [alone, List.mem_singleton] at same
  exact other (own.symm.trans same)

/-- Where a sweep stands that queues jobs: it has enqueued the job, which is live, or the job is among those left. -/
structure Queueing (i : JobId) (q : Queued) (db : Database) (now : Time) (rest : List Queued) (h : List NewsSaid)
    (l : List Write) (d : Data) : Prop where
  nothing : l = []
  rows : d.db = db
  clock : d.clock = now
  alone : d.redis.running.map (·.id) = [i]
  stands : d.redis.live q.id = true ∧ (∃ r, ⟨.enqueueJob q.id q.job q.deferUntil, r⟩ ∈ h) ∨ q ∈ rest

theorem Queueing.enqueue (lib : PyLib) {q next : Queued} {now : Time} {rest : List Queued} {h : List NewsSaid}
    (queueing : Queueing i q db now (next :: rest) h l d) :
    ∃ r d', exec lib i (.enqueueJob next.id next.job next.deferUntil) r l d = some (l, d') ∧
      Queueing i q db now rest (h ++ [⟨.enqueueJob next.id next.job next.deferUntil, r⟩]) l d' := by
  obtain ⟨r, d', hx, rows, _, clock, keeps, live⟩ := enqueueJob_enabled lib i next l d
  refine ⟨r, d', hx, queueing.nothing, rows.trans queueing.rows, clock.trans queueing.clock,
    keeps.running.trans queueing.alone, ?_⟩
  rcases queueing.stands with ⟨now, answer, said⟩ | mem
  · exact .inl ⟨keeps.live _ now, answer, List.mem_append_left _ said⟩
  · refine (List.mem_cons.mp mem).imp_left ?_
    rintro rfl
    exact ⟨live, r, List.mem_append_right _ (List.mem_singleton_self _)⟩

/-- What the sweep was to queue it has enqueued, and it is queued once only the sweep itself is running. -/
theorem Queueing.queued {q : Queued} {now : Time} {h : List NewsSaid} (queueing : Queueing i q db now [] h l d)
    (other : q.id ≠ i) : (∃ r, ⟨.enqueueJob q.id q.job q.deferUntil, r⟩ ∈ h) ∧ ∃ q' ∈ d.redis.queue, q'.id = q.id := by
  obtain ⟨live, said⟩ := queueing.stands.resolve_right List.not_mem_nil
  exact ⟨said, queued_of_live live queueing.alone other⟩

end Sweeps

section Recovery

variable {lib : PyLib} {d₀ : Data} {w : NewsWorld}

end Recovery

end NewsNotifier
