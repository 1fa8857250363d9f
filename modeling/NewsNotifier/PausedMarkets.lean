import NewsNotifier.SilentSteps
import NewsNotifier.ResumableDelivery

namespace NewsNotifier

open Interleaving

def Task.isSweep : Task → Bool
  | .enqueueDueMarkets | .enqueueStuckDeliveries | .enqueueStuckBatches => true
  | _ => false

def Task.isCandidate : Task → Bool
  | .job (.processCandidate _ _ _) => true
  | _ => false

/-- The executions of a market: its polls, candidates and resolutions, the deliveries of its logs, and every sweep. -/
def Task.concerns (m : Uuid) (db : Database) : Task → Prop
  | .job (.processMarket id) => id = m
  | .job (.processCandidate id _ _) => id = m
  | .job (.deliverBatch logId) => ∀ log ∈ db.logs, log.id = logId → log.marketId = m
  | .resolveBatchCandidate id _ _ _ _ => id = m
  | task => task.isSweep = true

/-- The market is inactive, as committed, at each of these reads. -/
def PausedAt (m : Uuid) (reads : Stmt → Bool) (tr : List NewsEvent) : Prop :=
  ∀ e ∈ tr, reads e.stmt = true → e.data.db.isActive m = false

/-- The deciding read of the execution finds the market inactive. -/
def Decided (m : Uuid) (task : Task) (tr : List NewsEvent) : Prop :=
  PausedAt m Stmt.guards tr ∨ task.isCandidate = true ∧ PausedAt m Stmt.rechecks tr

/-- The job is one of the market. -/
def Job.isFor (m : Uuid) (db : Database) : Job → Prop
  | .processMarket id => id = m
  | .processCandidate id _ _ => id = m
  | .deliverBatch logId => ∃ log ∈ db.logs, log.id = logId ∧ log.marketId = m

/-- The statements that stage nothing about market statuses. -/
def Stmt.keepsStatus : Stmt → Prop
  | .insertMarket _ => False
  | .assign x => x.keepsStatus
  | _ => True

theorem Stmt.keepsStatus.stages {s : Stmt} (h : s.keepsStatus) {x : Write} (stages : s.Stages x) : x.keepsStatus := by
  rcases stages with writes | ⟨row, watermark, rfl, rfl⟩
  · cases writes with
    | assigned => exact h
    | _ => exact True.intro
  · exact True.intro

theorem Stmt.reading.keepsStatus {m : Uuid} {s : Stmt} (h : s.reading m) : s.keepsStatus := by
  cases s <;> first | exact True.intro | exact False.elim h

theorem Stmt.batching.keepsStatus {m : Uuid} {s : Stmt} (h : s.batching m) : s.keepsStatus := by
  cases s <;> first | exact True.intro | exact False.elim h

theorem Stmt.delivering.keepsStatus {s : Stmt} (h : s.delivering) : s.keepsStatus := by
  unfold Stmt.delivering at h
  split at h <;> first | exact True.intro | exact False.elim h

theorem Stmt.logless.stages {s : Stmt} (h : s.logless) {x : Write} (stages : s.Stages x) : x.log = none := by
  rcases stages with writes | ⟨row, watermark, rfl, rfl⟩
  · cases writes with
    | log => exact False.elim h
    | assigned x =>
      cases x with
      | insertLog => exact False.elim h
      | _ => rfl
    | _ => rfl
  · rfl

theorem Stmt.delivering.logless {s : Stmt} (h : s.delivering) : s.logless := by
  unfold Stmt.delivering at h
  split at h <;> first | exact True.intro | exact False.elim h

theorem log_kept {lib : PyLib} {admits : Admits} {w w' : NewsWorld} (h : Steps (newsSys lib admits) w w')
    {log : DeliveryLog} (mem : log ∈ w.data.db.logs) : ∃ log' ∈ w'.data.db.logs, log'.head = log.head := by
  obtain ⟨l, same⟩ := steps_after h
  have kept : log.head ∈ w'.data.db.tables.logs := by
    rw [same, after_logs]
    exact List.mem_append_left _ (List.mem_map_of_mem mem)
  exact List.mem_map.mp kept

/-- A log that a session sees without having staged one is committed. -/
theorem log_before {db : Database} {l : List Write} (none : ∀ x ∈ l, x.log = none) {log : DeliveryLog}
    (mem : log ∈ (db.after l).logs) : ∃ log' ∈ db.logs, log'.head = log.head := by
  have seen : log.head ∈ (db.after l).tables.logs := List.mem_map_of_mem mem
  have staged : l.filterMap Write.log = [] := List.filterMap_eq_nil_iff.mpr none
  rw [after_logs, staged, List.append_nil] at seen
  exact List.mem_map.mp seen

section Executions

variable {lib : PyLib} {admits : Admits} {i : JobId} {job : Task × Settings} {w w' : NewsWorld}
  {tr before after : List NewsEvent} {e : NewsEvent} {m : Uuid}

/-- What every statement of the program stages is in the session whenever it executes one. -/
theorem each_before {P : Stmt → Prop} {K : Write → Prop} (run : Execution (newsSys lib admits) i job w tr w')
    (each : (taskProgram lib job.2 job.1).Each P fun _ => True) (stages : ∀ s x, P s → Stmt.Stages s x → K x)
    (he : e ∈ tr) : ∀ x ∈ e.before, K x := by
  have starts : ∀ p d', (newsSys lib admits).start i job w.data = some (p, d') → p.Along (fun _ _ => True) P := by
    intro p d' hs
    obtain ⟨_, _, _, rfl, _⟩ := newsSys_start hs
    exact each.along
  refine staged_before (K := fun _ x => K x) (fun _ _ h => h) run (fun e he x hx => ?_) he
  exact stages e.stmt x (run.along starts (fun _ _ => True.intro) he) hx

theorem recorded_rests {G : List NewsSaid → (s : Stmt) → Answer s → Prop} {asks : List NewsSaid → Job → Prop}
    (run : Execution (newsSys lib admits) i job w tr w') (still : Still asks G (taskProgram lib job.2 job.1) [])
    (given : ∀ before e after, tr = before ++ e :: after → G (before.map Event.said) e.stmt e.answer) :
    ∀ before e after, tr = before ++ e :: after → Rests asks (before.map Event.said) e.stmt := by
  have starts : ∀ p d', (newsSys lib admits).start i job w.data = some (p, d') → Still asks G p [] := by
    intro p d' hs
    obtain ⟨_, _, _, rfl, _⟩ := newsSys_start hs
    exact still
  exact fun before e after split => run.recorded starts given split

theorem given_guards (run : Execution (newsSys lib admits) i job w tr w')
    (each : (taskProgram lib job.2 job.1).Each Stmt.keepsStatus fun _ => True) (paused : PausedAt m Stmt.guards tr)
    (he : e ∈ tr) : readsPaused m e.stmt e.answer := by
  obtain ⟨_, _, l, d, _, _, hx, _⟩ := run.event he
  exact guards_paused hx (each_before run each (fun _ _ h stages => h.stages stages) he) (paused e he)

theorem given_rechecks (run : Execution (newsSys lib admits) i job w tr w')
    (each : (taskProgram lib job.2 job.1).Each Stmt.keepsStatus fun _ => True) (paused : PausedAt m Stmt.rechecks tr)
    (he : e ∈ tr) : rereadsPaused m e.stmt e.answer := by
  obtain ⟨_, _, l, d, _, _, hx, _⟩ := run.event he
  exact rechecks_paused hx (each_before run each (fun _ _ h stages => h.stages stages) he) (paused e he)

/-- The first read of a process is guarded with nothing staged. -/
theorem given_first (run : Execution (newsSys lib admits) i job w tr w') (paused : PausedAt m Stmt.guards tr)
    (split : tr = before ++ e :: after) (first : before.map Event.said = []) : readsPaused m e.stmt e.answer := by
  obtain rfl := List.map_eq_nil_iff.mp first
  obtain ⟨_, _, l, d, start, _, live, hx, _⟩ := run.split split
  have staged : e.before = [] := start.unmoved live
  rw [staged] at hx
  exact guards_paused hx (by simp) (paused e (by simp [split]))

theorem given_own {logId : Uuid} (run : Execution (newsSys lib admits) i job w tr w')
    (each : (taskProgram lib job.2 job.1).Each Stmt.logless fun _ => True)
    (own : ∀ log ∈ w'.data.db.logs, log.id = logId → log.marketId = m) (he : e ∈ tr) :
    readsOwn m logId e.stmt e.answer := by
  obtain ⟨w₁, w₂, l, d, _, at_, hx, _, step, rest⟩ := run.event he
  have none := each_before run each (K := fun x => x.log = none) (fun _ _ h stages => h.stages stages) he
  refine reads_own hx fun log mem key => ?_
  obtain ⟨log₁, mem₁, head₁⟩ := log_before none mem
  obtain ⟨log₂, mem₂, head₂⟩ := log_kept (.head step rest) (at_ ▸ mem₁ : log₁ ∈ w₁.data.db.logs)
  have head := head₂.trans head₁
  have market := own log₂ mem₂ ((congrArg LogHead.id head).trans key)
  exact (congrArg LogHead.marketId head).symm.trans market

theorem candidate_keepsStatus {lib : PyLib} {cfg : Settings} (m : Uuid) (candidate : Candidate)
    (batchId : Option Uuid) :
    (processCandidate lib cfg m candidate batchId).Each Stmt.keepsStatus fun _ => True :=
  processCandidate_does m (fun _ => True.intro) (fun _ _ h => h.keepsStatus) (fun _ _ h => h.keepsStatus)
    (fun _ _ _ _ => True.intro) (fun _ => True.intro) fun _ _ _ => True.intro

theorem sweep_keepsStatus {task : Task} (sweep : task.isSweep = true) {cfg : Settings} :
    (taskProgram lib cfg task).Each Stmt.keepsStatus fun _ => True := by
  cases task with
  | enqueueDueMarkets => exact enqueueDueMarkets_does (fun _ _ h => h.keepsStatus) fun _ _ => True.intro
  | enqueueStuckDeliveries =>
    exact enqueueStuckDeliveries_does (fun _ _ h => h.keepsStatus) fun _ _ h => h.keepsStatus
  | enqueueStuckBatches => exact enqueueStuckBatches_does (fun _ _ h => h.keepsStatus) fun _ _ h => h.keepsStatus
  | _ => simp [Task.isSweep] at sweep

/-- The executions of a market whose deciding read finds it paused only ask what rests. -/
theorem paused_rests (run : Execution (newsSys lib plainTask) i job w tr w') (mine : job.1.concerns m w'.data.db)
    (decided : Decided m job.1 tr) : ∃ asks, (job.1.isSweep = true → asks = Elsewhere m) ∧
      ∀ before e after, tr = before ++ e :: after → Rests asks (before.map Event.said) e.stmt := by
  obtain ⟨p, d', hs⟩ := run.started
  obtain ⟨_, _, plain, _, _⟩ := newsSys_start hs
  obtain ⟨task, cfg⟩ := job
  have guarded : task.isCandidate = false → PausedAt m Stmt.guards tr := by
    intro other
    rcases decided with guards | ⟨candidate, _⟩
    · exact guards
    · exact absurd candidate (by simp [other])
  have each {G : (s : Stmt) → Answer s → Prop} (given : ∀ e ∈ tr, G e.stmt e.answer) :
      ∀ (before : List NewsEvent) (e : NewsEvent) (after : List NewsEvent), tr = before ++ e :: after →
        G e.stmt e.answer :=
    fun before e after split => given e (by simp [split])
  have sweeps : task.isSweep = true → Still (Elsewhere m) (fun _ => readsPaused m) (taskProgram lib cfg task) [] →
      ∀ before e after, tr = before ++ e :: after → Rests (Elsewhere m) (before.map Event.said) e.stmt := by
    intro sweep still
    have other : task.isCandidate = false := by
      cases task <;> first | rfl | simp [Task.isSweep] at sweep
    exact recorded_rests run still (each fun e he => given_guards run (sweep_keepsStatus sweep) (guarded other) he)
  cases task with
  | job j =>
    refine ⟨fun _ _ => True, by simp [Task.isSweep], ?_⟩
    cases j with
    | processMarket id =>
      obtain rfl : id = m := mine
      exact recorded_rests run processMarket_still fun before e after split => given_first run (guarded rfl) split
    | processCandidate id candidate batchId =>
      obtain rfl : id = m := mine
      rcases decided with guards | ⟨_, rechecks⟩
      · exact recorded_rests run (processCandidate_guarded (fun _ _ => True.intro) candidate batchId [])
          (each fun e he => given_guards run (candidate_keepsStatus id candidate batchId) guards he)
      · exact recorded_rests run (processCandidate_rechecked (fun _ _ => True.intro) candidate batchId [])
          (each fun e he => given_rechecks run (candidate_keepsStatus id candidate batchId) rechecks he)
    | deliverBatch logId =>
      have statuses : (deliverBatch cfg logId).Each Stmt.keepsStatus fun _ => True :=
        deliverBatch_does (fun _ h => h.keepsStatus) (fun _ => True.intro) True.intro (fun _ _ _ => True.intro) logId
      have logless : (deliverBatch cfg logId).Each Stmt.logless fun _ => True :=
        deliverBatch_does (fun _ h => h.logless) (fun _ => True.intro) True.intro (fun _ _ _ => True.intro) logId
      have peeks : ∀ h s, s.peeks logId → Rests (fun _ _ => True) h s := by
        intro h s hs
        cases s <;> first | exact True.intro | exact False.elim hs
      exact recorded_rests run (Along.still (deliverBatch_peeks logId) peeks [])
        (each (G := fun s r => readsOwn m logId s r ∧ readsPaused m s r) fun e he =>
          ⟨given_own run logless mine he, given_guards run statuses (guarded rfl) he⟩)
  | enqueueDueMarkets => exact ⟨_, fun _ => rfl, sweeps rfl (enqueueDueMarkets_still [])⟩
  | enqueueStuckDeliveries => exact ⟨_, fun _ => rfl, sweeps rfl enqueueStuckDeliveries_still⟩
  | enqueueStuckBatches => exact ⟨_, fun _ => rfl, sweeps rfl (enqueueStuckBatches_still [])⟩
  | resolveBatchCandidate id b hash outcome item =>
    obtain rfl : id = m := mine
    cases item with
    | some item => simp [plainTask, Task.plain] at plain
    | none =>
      refine ⟨fun _ _ => True, by simp [Task.isSweep],
        recorded_rests (G := fun _ _ _ => True) run ?_ fun _ _ _ _ => True.intro⟩
      exact (resolveBatchCandidate_still id b hash outcome []).bind fun logId h =>
        enqueueDelivery_still logId fun _ _ => True.intro
  | _ => simp [Task.concerns, Task.isSweep] at mine

end Executions

section Sweeps

variable {lib : PyLib} {d₀ : Data} {i : JobId} {job : Task × Settings} {w w' : NewsWorld}
  {tr before after : List NewsEvent} {e : NewsEvent} {m : Uuid}

theorem logged_other (h₀ : d₀.Initial) (reach : Reachable (newsSys lib plainTask) d₀ w)
    (run : Execution (newsSys lib plainTask) i job w tr w') {m' logId : Uuid} (other : m' ≠ m)
    (logged : Logged m' logId (tr.map Event.said)) : ∀ log ∈ w'.data.db.logs, log.id = logId → log.marketId ≠ m := by
  obtain ⟨b, ids, new, said, later, rfl, split, commit⟩ := logged
  obtain ⟨before, rest, rfl, _, split⟩ := List.map_eq_append_iff.mp split
  obtain ⟨e₀, after, rfl, first, rfl⟩ := List.map_eq_cons_iff.mp split
  obtain ⟨s, r, l₀, d₁⟩ := e₀
  obtain ⟨rfl, answer⟩ := Sigma.mk.inj first
  obtain rfl := eq_of_heq answer
  obtain ⟨_, _, l, d, _, _, _, hx, _⟩ := run.split rfl
  have hx : exec lib i (.insertLog m' b ids) r l₀ d₁ = some (l, d) := hx
  have staged : Write.insertLog ⟨r.id, m', b, ids, 0, .pending, none, none, false, [], r.now, none⟩ ∈ l := by
    simp only [exec] at hx
    split at hx
    next =>
      obtain ⟨rfl, _⟩ := Prod.mk.inj (Option.some.inj hx)
      exact List.mem_append_right _ List.mem_cons_self
    next => simp at hx
  obtain ⟨c, hc, same⟩ := List.mem_map.mp commit
  obtain ⟨v, db, ws, _, steps, mem, committed⟩ :=
    staged_committed run rfl hx staged ⟨c, hc, (Sigma.mk.inj same).1⟩
  have head : (⟨r.id, m', b, ids⟩ : LogHead) ∈ v.data.db.tables.logs := by
    rw [committed, after_logs]
    exact List.mem_append_right _ (List.mem_filterMap.mpr ⟨_, mem, rfl⟩)
  obtain ⟨row, hr, same⟩ := List.mem_map.mp head
  obtain ⟨row', hr', same'⟩ := log_kept steps hr
  intro log hl key mine
  have head := same'.trans same
  have unique := List.inj_on_of_nodup_map (reachable_logs h₀ (reach.trans run.steps)) hl hr'
    (key.trans (congrArg LogHead.id head).symm)
  subst unique
  exact other ((congrArg LogHead.marketId head).symm.trans mine)

/-- A log that a sweep selects while the market is paused is another market's. -/
theorem selected_other (h₀ : d₀.Initial) (reach : Reachable (newsSys lib plainTask) d₀ w)
    (run : Execution (newsSys lib plainTask) i job w tr w') (sweep : job.1.isSweep = true)
    (paused : PausedAt m Stmt.guards tr) {said later : List NewsSaid} {cutoff : Time} {ids : List Uuid}
    (split : tr.map Event.said = said ++ ⟨.stuckDeliveries cutoff, ids⟩ :: later) (quiet : ∀ x ∈ said, x.1.logless)
    {logId : Uuid} (mem : logId ∈ ids) : ∀ log ∈ w'.data.db.logs, log.id = logId → log.marketId ≠ m := by
  obtain ⟨before, rest, rfl, rfl, tail⟩ := List.map_eq_append_iff.mp split
  obtain ⟨e, after, rfl, same, _⟩ := List.map_eq_cons_iff.mp tail
  obtain ⟨s, r, l, d⟩ := e
  obtain ⟨rfl, answer⟩ := Sigma.mk.inj same
  obtain rfl := eq_of_heq answer
  have here : (⟨.stuckDeliveries cutoff, r, l, d⟩ : NewsEvent) ∈ before ++ ⟨.stuckDeliveries cutoff, r, l, d⟩ :: after :=
    List.mem_append_right _ List.mem_cons_self
  obtain ⟨w₀, _, l', d', start, at₀, live, hx, steps⟩ := run.split rfl
  have hx : exec lib i (.stuckDeliveries cutoff) r l d = some (l', d') := hx
  obtain ⟨ok, _, _⟩ := answered_eq hx
  obtain ⟨log₀, hl₀, key₀⟩ := List.mem_map.mp ((List.isPerm_iff.mp ok).mem_iff.mp mem)
  obtain ⟨hl₀, active⟩ := List.mem_filter.mp hl₀
  have keeps := each_before run (sweep_keepsStatus sweep) (fun _ _ h stages => Stmt.keepsStatus.stages h stages) here
  simp only [Bool.and_eq_true, isActive_after keeps] at active
  have unstaged : ∀ x ∈ l, x.log = none :=
    staged_holds (K := fun _ x => x.log = none) (fun _ _ h => h) start
      (fun e he x stages => (quiet e.said (List.mem_map_of_mem he)).stages stages) live
  obtain ⟨log₁, hl₁, head₁⟩ := log_before unstaged hl₀
  have step : Step (newsSys lib plainTask) w₀ _ := .exec r live (by rw [at₀]; exact hx)
  obtain ⟨log₂, hl₂, head₂⟩ := log_kept (.head step steps) (at₀ ▸ hl₁ : log₁ ∈ w₀.data.db.logs)
  have head := head₂.trans head₁
  intro log hl key mine
  have unique := List.inj_on_of_nodup_map (reachable_logs h₀ (reach.trans run.steps)) hl hl₂
    (key.trans (key₀.symm.trans (congrArg LogHead.id head).symm))
  subst unique
  have market : log.marketId = log₀.marketId := congrArg LogHead.marketId head
  have inactive : d.db.isActive m = false := paused _ here rfl
  rw [← mine, market, active.2] at inactive
  exact Bool.noConfusion inactive

/-- A sweep that finds the market paused enqueues no job of it. -/
theorem elsewhere_other (h₀ : d₀.Initial) (reach : Reachable (newsSys lib plainTask) d₀ w)
    (run : Execution (newsSys lib plainTask) i job w tr w') (sweep : job.1.isSweep = true)
    (paused : PausedAt m Stmt.guards tr) (split : tr = before ++ e :: after) {j : Job}
    (asked : Elsewhere m (before.map Event.said) j) : ¬j.isFor m e.data.db := by
  obtain ⟨w₁, _, _, _, first, at_, _, _, _⟩ := run.split split
  have paused : PausedAt m Stmt.guards before := fun e he => paused e (split ▸ List.mem_append_left _ he)
  cases j with
  | processMarket id => exact asked
  | processCandidate id c b => exact asked.elim
  | deliverBatch logId =>
    rintro ⟨log, hl, key, mine⟩
    rw [← at_] at hl
    rcases asked with ⟨said, cutoff, ids, later, read, quiet, mem⟩ | ⟨m', other, logged⟩
    · exact selected_other h₀ reach first sweep paused read quiet mem log hl key mine
    · exact logged_other h₀ reach first other logged log hl key mine

end Sweeps

section Logs

variable {lib : PyLib} {d₀ : Data} {w w' : NewsWorld} {m logId : Uuid}

/-- Before its log is committed a delivery has not read it. -/
theorem unread (h : Reachable (newsSys lib plainTask) d₀ w) (absent : ∀ log ∈ w.data.db.logs, log.id ≠ logId)
    {p : Program Unit} {l : List Write} (live : w.proc (.deliverBatch logId) = some (p, l)) :
    l = [] ∧ (p = .ret () ∨ ∃ cfg, p = deliverBatch cfg logId) := by
  change Relation.ReflTransGen (Step (newsSys lib plainTask)) ⟨d₀, fun _ => none⟩ w at h
  induction h generalizing p l with
  | refl => simp at live
  | @tail w₁ w₂ _ step ih =>
    have earlier : ∀ log ∈ w₁.data.db.logs, log.id ≠ logId := by
      intro log hl key
      obtain ⟨log', hl', head⟩ := log_kept (.single step) hl
      exact absent log' hl' ((congrArg LogHead.id head).trans key)
    by_cases same : w₂.proc (.deliverBatch logId) = w₁.proc (.deliverBatch logId)
    · exact ih earlier (same ▸ live)
    · rcases step.own same with ⟨s, next, l₀, r, l', d', hp, hx, rfl⟩ | ⟨j, p', d', _, hs, rfl⟩ | rfl
      · obtain ⟨rfl, rfl⟩ := Prod.mk.inj (Option.some.inj ((World.set_self _ _ _ _).symm.trans live))
        obtain ⟨rfl, now⟩ := ih earlier hp
        rcases now with now | ⟨cfg, now⟩
        · cases now
        · cases now
          obtain ⟨ok, rfl, _⟩ := answered_eq hx
          have read : r = none := by
            rw [of_decide_eq_true ok, List.find?_eq_none]
            intro log hl
            simpa using earlier log hl
          subst read
          exact ⟨rfl, .inl rfl⟩
      · obtain ⟨rfl, rfl⟩ := Prod.mk.inj (Option.some.inj ((World.set_self _ _ _ _).symm.trans live))
        obtain ⟨named, _, _, rfl, _⟩ := newsSys_start hs
        rw [named_delivery named]
        exact ⟨rfl, .inr ⟨_, rfl⟩⟩
      · simp at live

/-- The delivery of the log moves only while the market is inactive. -/
def unattempted (m logId : Uuid) : Allows := fun i _ _ _ d => !d.db.isActive m || i ≠ .deliverBatch logId

/-- A log that nothing has attempted, and a delivery of it that its guards will end. -/
structure Unattempted (m logId : Uuid) (w : NewsWorld) : Prop where
  rows : ∀ log ∈ w.data.db.logs, log.id = logId → log.status = .pending ∧ log.attempt = 0
  guarded : ∀ p l, w.proc (.deliverBatch logId) = some (p, l) → l = [] ∧
    p.Along (fun s r => readsOwn m logId s r ∧ readsPaused m s r) (Stmt.peeks logId)

theorem unattempted_start (h : Reachable (newsSys lib plainTask) d₀ w)
    (absent : ∀ log ∈ w.data.db.logs, log.id ≠ logId) : Unattempted m logId w := by
  refine ⟨fun log hl key => absurd key (absent log hl), fun p l live => ?_⟩
  obtain ⟨none, rfl | ⟨cfg, rfl⟩⟩ := unread h absent live
  · exact ⟨none, True.intro⟩
  · exact ⟨none, deliverBatch_peeks logId⟩

/-- One step keeps it. -/
theorem Unattempted.step (h : Unattempted m logId w)
    (sound : (deliveryContract False).Sound ((newsSys lib plainTask).restrict (unattempted m logId)) w)
    (step : Step ((newsSys lib plainTask).restrict (unattempted m logId)) w w')
    (own : ∀ log ∈ w.data.db.logs, log.id = logId → log.marketId = m) : Unattempted m logId w' := by
  have same_db : w'.data.db = w.data.db → ∀ log ∈ w'.data.db.logs, log.id = logId → log.status = .pending ∧
      log.attempt = 0 :=
    fun e => e ▸ h.rows
  by_cases same : w'.proc (.deliverBatch logId) = w.proc (.deliverBatch logId)
  · obtain ⟨a, ne, act⟩ := step.others (deliveryContract_governs lib False.elim) sound same
    refine ⟨fun log hl key => ?_, same ▸ h.guarded⟩
    rcases act.2.others_row sound.data.1.keyed.logs ne hl key with old | fresh
    · exact h.rows log old key
    · exact ⟨fresh.status, fresh.attempt⟩
  · rcases step.own same with ⟨s, next, l, r, l', d', hp, hx, rfl⟩ | ⟨j, p, d', _, hs, rfl⟩ | rfl
    · obtain ⟨allowed, hx⟩ := Sys.exec_of_restrict hx
      obtain ⟨rfl, peeks, along⟩ := h.guarded _ _ hp
      have inactive : w.data.db.isActive m = false := by simpa [unattempted] using allowed
      have looks : s.looks = true := by
        cases s <;> first | rfl | exact False.elim peeks
      obtain ⟨rfl, rfl⟩ := exec_looks looks hx
      refine ⟨h.rows, fun p l live => ?_⟩
      obtain ⟨rfl, rfl⟩ := Prod.mk.inj (Option.some.inj ((World.set_self _ _ _ _).symm.trans live))
      exact ⟨rfl, along r ⟨reads_own hx own, guards_paused hx (by simp) fun _ => inactive⟩⟩
    · obtain ⟨named, _, _, rfl, rfl⟩ := @newsSys_start lib plainTask _ _ _ _ _ _ hs
      refine ⟨h.rows, fun p l live => ?_⟩
      obtain ⟨rfl, rfl⟩ := Prod.mk.inj (Option.some.inj ((World.set_self _ _ _ _).symm.trans live))
      rw [named_delivery named]
      exact ⟨rfl, deliverBatch_peeks logId⟩
    · exact ⟨h.rows, fun p l live => by simp at live⟩

/-- Runs: a log that appears stays pending and unattempted as long as its delivery moves in no state with the market
active. -/
theorem Unattempted.steps (h₀ : d₀.Initial) (reach : Reachable (newsSys lib plainTask) d₀ w)
    (absent : ∀ log ∈ w.data.db.logs, log.id ≠ logId)
    (h : Steps ((newsSys lib plainTask).restrict (unattempted m logId)) w w')
    (own : ∀ log ∈ w'.data.db.logs, log.id = logId → log.marketId = m) : Unattempted m logId w' := by
  have governs : (deliveryContract False).Governs ((newsSys lib plainTask).restrict (unattempted m logId)) :=
    deliveryContract_governs lib False.elim
  have start : (deliveryContract False).Sound ((newsSys lib plainTask).restrict (unattempted m logId)) w :=
    ((plain_governs lib).sound h₀.deliveryInv reach).fewer fun _ _ _ _ _ _ _ hx => (Sys.exec_of_restrict hx).2
  suffices run : (deliveryContract False).Sound ((newsSys lib plainTask).restrict (unattempted m logId)) w' ∧
      ((∀ log ∈ w'.data.db.logs, log.id = logId → log.marketId = m) → Unattempted m logId w') from run.2 own
  clear own
  induction h with
  | refl => exact ⟨start, fun _ => unattempted_start reach absent⟩
  | @tail v v' _ step ih =>
    refine ⟨(governs.step ih.1 step).1, fun own => ?_⟩
    have earlier : ∀ log ∈ v.data.db.logs, log.id = logId → log.marketId = m := by
      intro log hl key
      obtain ⟨log', hl', head⟩ := log_kept (.single step.of_restrict) hl
      have market := own log' hl' ((congrArg LogHead.id head).trans key)
      exact (congrArg LogHead.marketId head).symm.trans market
    exact (ih.2 earlier).step ih.1 step earlier

end Logs

/-- A paused market is silent. An execution of the market whose deciding read finds it inactive takes
silent steps only, and a sweep enqueues no job of it. A log of the market that appears stays pending
and unattempted as long as its delivery moves in no state with the market active, and a sweep selects
it once the market is active again. -/
theorem paused_silent (lib : PyLib) {d₀ : Data} (h₀ : d₀.Initial) {w : NewsWorld}
    (reach : Reachable (newsSys lib plainTask) d₀ w) (m : Uuid) :
    (∀ i job tr w', Execution (newsSys lib plainTask) i job w tr w' → job.1.concerns m w'.data.db →
      Decided m job.1 tr → ∀ e ∈ tr,
        (∀ l d, exec lib i e.stmt e.answer e.before e.data = some (l, d) → Silent e.data d) ∧
        (job.1.isSweep = true → ∀ id j t, e.stmt = .enqueueJob id j t → ¬j.isFor m e.data.db)) ∧
    ∀ w' log, log ∈ w'.data.db.logs → log.marketId = m → (∀ old ∈ w.data.db.logs, old.id ≠ log.id) →
      Steps ((newsSys lib plainTask).restrict (unattempted m log.id)) w w' →
      log.status = .pending ∧ log.attempt = 0 ∧
      ∀ i cutoff ids l d, exec lib i (.stuckDeliveries cutoff) ids [] w'.data = some (l, d) →
        w'.data.db.isActive m = true → log.createdAt ≤ cutoff → log.id ∈ ids := by
  constructor
  · intro i job tr w' run mine decided e he
    obtain ⟨asks, sweeps, rests⟩ := paused_rests run mine decided
    refine ⟨fun l d hx => rests_silent run rests he hx, fun sweep id j t asked => ?_⟩
    obtain ⟨before, after, split⟩ := List.append_of_mem he
    have paused : PausedAt m Stmt.guards tr := by
      rcases decided with guards | ⟨candidate, _⟩
      · exact guards
      · unfold Task.isCandidate at candidate
        split at candidate
        next job_eq =>
          rw [job_eq] at sweep
          exact absurd sweep Bool.false_ne_true
        next => exact absurd candidate Bool.false_ne_true
    have now := rests before e after split
    rw [asked, sweeps sweep] at now
    exact elsewhere_other h₀ reach run sweep paused split now
  · intro w' log hl mine absent run
    have unique := reachable_logs h₀ (reach.trans run.of_restrict)
    have own : ∀ log' ∈ w'.data.db.logs, log'.id = log.id → log'.marketId = m := by
      intro log' hl' key
      rw [List.inj_on_of_nodup_map unique hl' hl key, mine]
    obtain ⟨status, attempt⟩ := (Unattempted.steps h₀ reach absent run own).rows log hl rfl
    refine ⟨status, attempt, fun i cutoff ids l d hx active old => ?_⟩
    obtain ⟨ok, _, _⟩ := answered_eq hx
    refine (List.isPerm_iff.mp ok).mem_iff.mpr (List.mem_map_of_mem (List.mem_filter.mpr ⟨hl, ?_⟩))
    rw [mine]
    simp [status, active, old]

/-- A batch of two, with one candidate stored. -/
def halfStored : List NewsMove :=
  [.start (.call 1) (.openBatch 1 2, sampleSettings)] ++ execs sampleLib (sampleOracle "t") (.call 1) 2 ++
  [.start (.call 2) (.job (.processCandidate 1 (sampleCandidate "a") (some 2)), sampleSettings)] ++
  execs sampleLib (sampleOracle "t") (.call 2) 13

def otherCandidate : Task × Settings := (.job (.processCandidate 1 (sampleCandidate "b") (some 2)), sampleSettings)

/-- The market is paused between the scrape of the other candidate and its lock. -/
def pausedBeforeLock : List NewsMove :=
  execs sampleLib (sampleOracle "t") (.call 3) 4 ++
  [.start (.call 4) (.unsubscribe "m", sampleSettings)] ++ execs sampleLib (sampleOracle "t") (.call 4) 3 ++
  execs sampleLib (sampleOracle "t") (.call 3) 9

def pauseLifted : List NewsMove :=
  [.start (.call 5) (.updateMarket "m" ⟨none, none, none, none, some .active⟩, sampleSettings)] ++
  execs sampleLib (sampleOracle "t") (.call 5) 3

theorem paused_silent_sample :
    (∃ w tr w', Execution (newsSys sampleLib plainTask) (.call 3) otherCandidate w tr w' ∧
      tr.length = 13 ∧ w'.data.db.logs.length = 1 ∧
      ∀ e ∈ tr, ∀ l d, exec sampleLib (.call 3) e.stmt e.answer e.before e.data = some (l, d) → Silent e.data d) ∧
    ∃ w' : NewsWorld, ∃ log ∈ w'.data.db.logs, w'.data.db.isActive 1 = true ∧ log.newsItemIds = [3] ∧
      log.status = .pending ∧ log.attempt = 0 := by
  constructor
  · have run : (((newsSys sampleLib plainTask).run sampleWorld halfStored).bind fun w =>
        ((newsSys sampleLib plainTask).execute (.call 3) otherCandidate w pausedBeforeLock).map fun x => (w, x)).any
        (fun x => x.2.1.all (fun e => !e.stmt.rechecks || !e.data.db.isActive 1) && x.2.1.length == 13 &&
          x.2.2.data.db.logs.length == 1) = true := by
      decide +kernel
    obtain ⟨⟨w, tr, w'⟩, found, hp⟩ := (Option.any_eq_true _ _).mp run
    obtain ⟨w₁, first, found⟩ := Option.bind_eq_some_iff.mp found
    obtain ⟨x, found, same⟩ := Option.map_eq_some_iff.mp found
    obtain ⟨rfl, rfl⟩ := Prod.mk.inj same
    simp only [Bool.and_eq_true, List.all_eq_true, Bool.or_eq_true, Bool.not_eq_true', beq_iff_eq] at hp
    have execution := Sys.execute_execution found
    have paused : PausedAt 1 Stmt.rechecks tr := fun e he reads => (hp.1.1 e he).resolve_left (by simp [reads])
    refine ⟨w₁, tr, w', execution, hp.1.2, hp.2, fun e he => ?_⟩
    exact ((paused_silent sampleLib sampleData_initial (Sys.run_steps first) 1).1 _ _ tr w' execution rfl
      (.inr ⟨rfl, paused⟩) e he).1
  · have run : (((newsSys sampleLib plainTask).restrict (unattempted 1 4)).run sampleWorld
        (halfStored ++ [.start (.call 3) otherCandidate] ++ pausedBeforeLock ++ pauseLifted)).map (fun w =>
          w.data.db.isActive 1 && w.data.db.logs.any fun log =>
            log.id == 4 && log.marketId == 1 && log.newsItemIds == [3]) =
        some true := by
      decide +kernel
    obtain ⟨w', steps, hp⟩ := Sys.run_reaches run
    simp only [Bool.and_eq_true, List.any_eq_true, beq_iff_eq] at hp
    obtain ⟨active, log, hl, ⟨id, market⟩, items⟩ := hp
    obtain ⟨status, attempt, _⟩ := (paused_silent sampleLib sampleData_initial .refl 1).2 w' log hl market
      (fun old hold => absurd hold List.not_mem_nil) (id ▸ steps)
    exact ⟨w', log, hl, active, items, status, attempt⟩

end NewsNotifier
