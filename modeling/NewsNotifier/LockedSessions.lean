import NewsNotifier.LockedRuns
import NewsNotifier.TaskStatements
import NewsNotifier.NewsRuns

namespace NewsNotifier

open Interleaving Prog

/-- The lock that a statement takes. -/
def Stmt.locks : Stmt → Option Int
  | .advisoryXactLock key => some key
  | _ => none

/-- The statement ends its transaction, and with it gives back the locks. -/
def Stmt.unlocks : (s : Stmt) → Answer s → Bool
  | .commit, _ => true
  | .insertMarket _, inserted => inserted
  | _, _ => false

theorem exec_locked {lib : PyLib} {i : JobId} {s : Stmt} {r : Answer s} {l l' : List Write} {d d' : Data}
    (h : exec lib i s r l d = some (l', d')) : d'.locks = (s.locks.map (·, i)).toList ++
      if s.unlocks r then d.locks.filter (·.2 ≠ i) else d.locks := by
  have read : ∀ {ok : Bool}, answered ok l d = some (l', d') → d'.locks = d.locks := by
    intro ok hok
    obtain ⟨_, _, rfl⟩ := answered_eq hok
    rfl
  cases s with
  | advisoryXactLock key =>
    simp only [exec] at h
    split at h
    next =>
      obtain ⟨_, rfl⟩ := Prod.mk.inj (Option.some.inj h)
      rfl
    next => simp at h
  | commit =>
    obtain ⟨_, rfl⟩ := Prod.mk.inj (Option.some.inj h)
    rfl
  | insertMarket row =>
    simp only [exec] at h
    split at h
    next =>
      obtain ⟨refused, _, rfl⟩ := answered_eq h
      obtain rfl : r = false := of_decide_eq_true refused
      rfl
    next =>
      split at h
      next inserted =>
        obtain ⟨_, rfl⟩ := Prod.mk.inj (Option.some.inj h)
        simp only [Stmt.locks, Stmt.unlocks, inserted]
        rfl
      next => simp at h
  | insertCandidate | countResolved | closeOpen | insertItem | insertLog | insertBatch | uuid4 | enqueueJob =>
    simp only [exec] at h
    repeat' split at h
    all_goals first
      | exact read h
      | (obtain ⟨_, rfl⟩ := Prod.mk.inj (Option.some.inj h); rfl)
      | simp at h
  | assign | sendWebhook | sendTelegram | sadd | zadd | delete | encryptSecret | decryptSecret | generateJson |
      searchSources | embedText | scrapeUrl | expire =>
    obtain ⟨_, rfl⟩ := Prod.mk.inj (Option.some.inj h)
    rfl
  | _ => exact read h

/-- The advisory locks of the sessions, given back at the end of a transaction. -/
def newsLocking (lib : PyLib) (admits : Admits) : Locking (newsSys lib admits) Int where
  locks := Data.locks
  takes := Stmt.locks
  frees := Stmt.unlocks
  exec := exec_locked
  taken := by
    intro i s r l l' d d' h e he takes
    cases s with
    | advisoryXactLock key =>
      obtain rfl : key = e.1 := Option.some.inj takes
      have h : exec lib i (.advisoryXactLock e.1) r l d = some (l', d') := h
      simp only [exec] at h
      split at h
      next free =>
        have own := List.all_eq_true.mp free e he
        simpa using own
      next => simp at h
    | _ => cases takes
  free := fun i s l d own => exec_enabled lib i s l d fun key same e he own' => own e he (by rw [same, own']; rfl)
  start := by
    intro i j d p d' h
    obtain ⟨_, _, _, _, rfl⟩ := newsSys_start h
    rfl
  stop := fun _ _ => rfl
  env := by
    intro t d d' h
    obtain ⟨_, rfl⟩ := newsSys_env h
    rfl

/-- The statement takes no lock but `key`. -/
def Stmt.only (key : Int) (s : Stmt) : Prop := ∀ k, s.locks = some k → k = key

def Stmt.lockless (s : Stmt) : Prop := s.locks = none

theorem Stmt.lockless.only {s : Stmt} (h : s.lockless) (key : Int) : s.only key := by
  intro k takes
  rw [show s.locks = none from h] at takes
  simp at takes

theorem Stmt.reading.lockless {m : Uuid} {s : Stmt} (h : s.reading m) : s.lockless := by
  cases s <;> first | rfl | exact h.elim

theorem Stmt.delivering.lockless {s : Stmt} (h : s.delivering) : s.lockless := by
  cases s <;> first | rfl | exact h.elim

section Programs

variable {lib : PyLib} {admits : Admits} {cfg : Settings} {m b : Uuid} {key : Int} {F : Raised → Prop}
  {candidate : Candidate} {batchId item : Option Uuid} {market : Market}

theorem finalizeBatchDelivery_lockless : (finalizeBatchDelivery m b).Each Stmt.lockless F := by
  refine ⟨rfl, fun items => ?_⟩
  simp only [Prog.ret_bind]
  split
  next => exact True.intro
  next => exact ⟨rfl, fun _ => True.intro⟩

theorem createSoloDelivery_lockless (id : Uuid) : (createSoloDelivery m id).Each Stmt.lockless F :=
  ⟨rfl, fun _ => ⟨rfl, fun _ => True.intro⟩⟩

theorem enqueueDelivery_lockless (logId : Option Uuid) : (enqueueDelivery logId).Each Stmt.lockless F :=
  enqueueDelivery_does (fun _ => rfl) logId

theorem lockless_only {α : Type} {p : Program α} (h : p.Each Stmt.lockless F) : p.Each (Stmt.only key) F :=
  h.mono (fun _ none => none.only key) fun _ h => h

theorem resolveBatchCandidate_only (h outcome : String) :
    (resolveBatchCandidate m b h outcome item).Each (Stmt.only (marketLockKey m)) F := by
  refine ⟨fun _ same => (Option.some.inj same).symm, fun _ => ⟨nofun, fun inserted => ?_⟩⟩
  simp only [Prog.ret_bind]
  split
  next => exact ⟨nofun, fun _ => True.intro⟩
  next =>
    refine ⟨nofun, fun row => ?_⟩
    simp only [Prog.ret_bind]
    split
    next =>
      refine ⟨nofun, fun _ => ?_⟩
      cases item with
      | none => exact True.intro
      | some id =>
        exact (lockless_only (createSoloDelivery_lockless id)).bind fun _ => ⟨nofun, fun _ => True.intro⟩
    next => exact ⟨nofun, fun _ => True.intro⟩
    next => exact (lockless_only finalizeBatchDelivery_lockless).bind fun _ => ⟨nofun, fun _ => True.intro⟩

theorem resolve_only (outcome : String) :
    (resolve m candidate batchId outcome item).Each (Stmt.only (marketLockKey m)) F := by
  cases batchId with
  | some b =>
    exact (resolveBatchCandidate_only _ _).bind fun logId => lockless_only (enqueueDelivery_lockless logId)
  | none =>
    cases item with
    | none => exact ⟨nofun, fun _ => True.intro⟩
    | some id =>
      exact (lockless_only (createSoloDelivery_lockless id)).bind fun log =>
        ⟨nofun, fun _ => lockless_only (enqueueDelivery_lockless (some log))⟩

/-- A sweep of the batches takes one lock after the other, each given back before the next. -/
theorem forceCloseBatch_single : (newsLocking lib admits).Single none (forceCloseBatch m b) (· = none) := by
  have finalizes : (newsLocking lib admits).Single (some (marketLockKey m)) (finalizeBatchDelivery m b)
      fun held => held = none ∨ held = some (marketLockKey m) :=
    (newsLocking lib admits).single_each (F := fun _ => True) finalizeBatchDelivery_lockless
      (fun _ none k takes => none.only _ k takes) (.inr rfl)
  refine ⟨fun _ _ => .inl rfl, fun _ _ => ⟨nofun, fun row _ => ?_⟩⟩
  simp only [Prog.ret_bind, Prog.bind_eq]
  split
  next => exact ⟨nofun, fun _ _ => rfl⟩
  next => exact (finalizes.mono (fun _ _ _ => ⟨nofun, fun _ _ => rfl⟩) fun _ _ h => h).bind

theorem enqueueStuckBatches_single : (newsLocking lib admits).Single none enqueueStuckBatches (· = none) := by
  refine ⟨nofun, fun now _ => ⟨nofun, fun rows _ => ?_⟩⟩
  refine Obeys.forEach (K := fun _ m => m = none) (fun row _ m free => ?_) rows rfl
  subst free
  refine Obeys.bind (forceCloseBatch_single.mono (fun m logId free => ?_) fun _ _ h => h)
  subst free
  exact (newsLocking lib admits).unlocked_each (enqueueDelivery_lockless logId) (F := fun _ => True) fun _ none => none

theorem processCandidate_single (c : Candidate) :
    (newsLocking lib admits).Single none (processCandidate lib cfg m c batchId) fun _ => True := by
  have own : ∀ id {p : Program Unit}, p.Each (Stmt.only (marketLockKey id)) (fun _ => True) →
      (newsLocking lib admits).Single none p fun _ => True := fun _ _ each =>
    ((newsLocking lib admits).single_each each (fun _ only => only) (.inl rfl)).mono (fun _ _ _ => True.intro)
      fun _ _ h => h
  have resolves : ∀ (id : Uuid) (p : Program Unit), Resolution id c batchId p →
      p.Each (Stmt.only (marketLockKey id)) fun _ => True := by
    rintro id _ ⟨outcome, item, rfl⟩
    exact resolve_only outcome
  refine ⟨nofun, fun found _ => ?_⟩
  simp only [Prog.ret_bind]
  cases found with
  | none => exact own _ (resolve_only _)
  | some market =>
    dsimp only
    split
    next => exact own _ (resolve_only _)
    next =>
      refine own market.id ⟨nofun, fun scraped => ?_⟩
      simp only [Prog.ret_bind]
      split
      next => exact True.intro
      next =>
        exact (scrapeFailed_leads (fun _ => True.intro) (fun _ => nofun) none).each (resolves market.id)
      next result =>
        split
        next =>
          exact (scrapeFailed_leads (fun _ => True.intro) (fun _ => nofun) (some result)).each (resolves market.id)
        next =>
          refine (extractAndStore_leads (fun _ => True.intro) (fun s reads => reads.lockless.only _) ?_
            fun _ _ _ => nofun).each (resolves market.id)
          exact fun _ same => (Option.some.inj same).symm

theorem dispatchCycle_only (next : Time) (selected : List Candidate) :
    (dispatchCycle m next batchId selected).Each (Stmt.only (marketLockKey m)) F := by
  refine ⟨nofun, fun _ => Prog.Each.forEach fun c _ => ⟨nofun, fun accepted => ?_⟩⟩
  simp only [Prog.ret_bind, Prog.bind_eq]
  refine (registerMarketJob_does (fun _ => nofun) nofun _).bind fun _ => ?_
  cases batchId with
  | none => exact True.intro
  | some b =>
    dsimp only
    split
    next => exact True.intro
    next =>
      exact (resolveBatchCandidate_only _ _).bind fun logId => lockless_only (enqueueDelivery_lockless logId)

theorem processMarket_single :
    (newsLocking lib admits).Single none (processMarket lib cfg m) fun _ => True := by
  refine ⟨nofun, fun found _ => ?_⟩
  simp only [Prog.ret_bind]
  cases found with
  | none => exact True.intro
  | some market =>
    refine ((newsLocking lib admits).single_each (P := Stmt.only (marketLockKey market.id))
      (F := fun _ => True) ?_ (fun _ only => only) (.inl rfl)).mono (fun _ _ _ => True.intro) fun _ _ h => h
    dsimp only
    split
    next => exact True.intro
    next =>
      refine (selectCandidates_does market (fun _ => True.intro) fun s reads => reads.lockless.only _).bind fun selected =>
        ⟨nofun, fun lastPolledAt => ⟨nofun, fun u => ?_⟩⟩
      refine (assignMarket_does market nofun).bind fun _ => (assignMarket_does market nofun).bind fun _ => ?_
      split
      next => exact ⟨nofun, fun _ => dispatchCycle_only _ _⟩
      next => exact ⟨nofun, fun _ => ⟨nofun, fun _ => dispatchCycle_only _ _⟩⟩

theorem lockless_serves : Serves Stmt.lockless where
  reads _ _ h := h.lockless
  commits := rfl
  sets _ _ _ := rfl
  aborts _ := rfl
  deletes _ := rfl

/-- No job, no request and no sweep ever holds two locks. -/
theorem task_single (task : Task) : (newsLocking lib admits).Single none (taskProgram lib cfg task) fun _ => True := by
  have lockless : ∀ {p : Program Unit}, p.Each Stmt.lockless (fun _ => True) →
      (newsLocking lib admits).Single none p fun _ => True := fun each =>
    ((newsLocking lib admits).unlocked_each each fun _ none => none).mono (fun _ _ _ => True.intro) fun _ _ h => h
  cases task with
  | job j =>
    cases j with
    | processMarket m => exact processMarket_single
    | processCandidate m c b => exact processCandidate_single c
    | deliverBatch id =>
      exact lockless (deliverBatch_does (fun _ h => h.lockless) (fun _ => True.intro) True.intro (fun _ _ _ => rfl) id)
  | subscribe body =>
    exact lockless (subscribe_does lockless_serves (fun _ _ => True.intro) rfl (fun _ _ => rfl) (fun _ _ => rfl) body)
  | unsubscribe marketId => exact lockless (unsubscribe_does lockless_serves (fun _ _ => True.intro) marketId)
  | updateMarket marketId body =>
    exact lockless (updateMarket_does lockless_serves (fun _ _ => True.intro) (fun _ _ => rfl) marketId body)
  | enqueueDueMarkets =>
    exact lockless (enqueueDueMarkets_does (fun _ _ h => h.lockless) fun _ _ => rfl)
  | enqueueStuckDeliveries =>
    exact lockless ⟨rfl,
      fun _ => ⟨rfl, fun _ => Prog.Each.forEach fun logId _ => enqueueDelivery_lockless (some logId)⟩⟩
  | enqueueStuckBatches => exact enqueueStuckBatches_single.mono (fun _ _ _ => True.intro) fun _ _ h => h
  | resolveBatchCandidate m b h outcome item =>
    refine ((newsLocking lib admits).single_each (F := fun _ => True) (P := Stmt.only (marketLockKey m))
      ((resolveBatchCandidate_only h outcome).bind fun logId => lockless_only (enqueueDelivery_lockless logId))
      (fun _ only => only) (.inl rfl)).mono (fun _ _ _ => True.intro) fun _ _ h => h
  | forceCloseBatch m b =>
    refine (forceCloseBatch_single.mono (fun held logId free => ?_) fun _ _ h => h).bind
    subst free
    exact lockless (enqueueDelivery_lockless logId)
  | openBatch m n => exact lockless ⟨rfl, fun _ => ⟨rfl, fun _ => True.intro⟩⟩

end Programs

section Runs

variable {lib : PyLib} {admits : Admits} {d₀ : Data} {w : NewsWorld}

theorem starts_single {i : JobId} {job : Task × Settings} {d d' : Data} {p : Program Unit}
    (h : (newsSys lib admits).start i job d = some (p, d')) : (newsLocking lib admits).Single none p fun _ => True := by
  obtain ⟨task, cfg⟩ := job
  obtain ⟨_, _, _, rfl, _⟩ := newsSys_start h
  exact task_single task

/-- However the processes interleave, no lock is held by two of them and none of them holds two; none is
ever stuck: one that cannot go on has ended, or waits for a lock whose holder is another that can go on
or has ended; and from any state all of them can be run to their own ends, where no lock is held. -/
theorem no_deadlock (lib : PyLib) (admits : Admits) (h₀ : d₀.Initial) (reach : Reachable (newsSys lib admits) d₀ w) :
    (∀ e ∈ w.data.locks, ∀ e' ∈ w.data.locks, e.1 = e'.1 ∨ e.2 = e'.2 → e = e') ∧
    (∀ i p l, w.proc i = some (p, l) → w.Able (newsSys lib admits) i ∨ p.Ended ∨
      ∃ key next, p = .stmt (.advisoryXactLock key) next ∧ ∃ j, j ≠ i ∧ (key, j) ∈ w.data.locks ∧
        (w.Able (newsSys lib admits) j ∨ ∃ q l', w.proc j = some (q, l') ∧ q.Ended)) ∧
    ∃ w', Relation.ReflTransGen (Orderly (newsSys lib admits)) w w' ∧ (∀ i, w'.proc i = none) ∧
      w'.data.locks = [] := by
  have kept : (newsLocking lib admits).Kept w := Locking.kept h₀.locks reach starts_single
  refine ⟨fun e he e' he' => ?_, ?_, ?_⟩
  · rintro (key | holder)
    · exact Prod.ext key (kept.alone e he e' he' key)
    · exact Prod.ext (kept.once he he' holder) holder
  · intro i p l live
    refine ((newsLocking lib admits).waits live).imp_right fun stuck => stuck.imp_right ?_
    rintro ⟨s, next, rfl, e, he, takes, other⟩
    cases s with
    | advisoryXactLock key =>
      obtain rfl : key = e.1 := Option.some.inj takes
      exact ⟨e.1, next, rfl, e.2, other, he, kept.holder he⟩
    | _ => cases takes
  · obtain ⟨is, listed⟩ := Steps.finite reach [] fun _ _ => rfl
    exact kept.drains starts_single listed

end Runs

/-- Two sweeps close the same batch; the first one holds the lock. -/
def sweptTwice : List NewsMove :=
  [.start (.call 1) (.openBatch 1 2, sampleSettings)] ++ execs sampleLib (sampleOracle "t") (.call 1) 2 ++
  [.start (.call 2) (.forceCloseBatch 1 2, sampleSettings)] ++ execs sampleLib (sampleOracle "t") (.call 2) 1 ++
  [.start (.call 3) (.forceCloseBatch 1 2, sampleSettings)]

theorem no_deadlock_sample : ∃ w : NewsWorld, w.data.locks = [(marketLockKey 1, .call 2)] ∧
    (w.proc (.call 2)).isSome = true ∧ (w.proc (.call 3)).isSome = true ∧
    ∃ w', Relation.ReflTransGen (Orderly (newsSys sampleLib anyTask)) w w' ∧ (∀ i, w'.proc i = none) ∧
      w'.data.locks = [] := by
  have run : ((newsSys sampleLib anyTask).run sampleWorld sweptTwice).map (fun w =>
      w.data.locks == [(marketLockKey 1, .call 2)] && (w.proc (.call 2)).isSome && (w.proc (.call 3)).isSome) =
      some true := by
    decide +kernel
  obtain ⟨w, reach, hp⟩ := Sys.run_reaches run
  simp only [Bool.and_eq_true, beq_iff_eq] at hp
  exact ⟨w, hp.1.1, hp.1.2, hp.2, (no_deadlock sampleLib anyTask sampleData_initial reach).2.2⟩

end NewsNotifier
