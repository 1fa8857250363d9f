import NewsNotifier.ArqQueue
import NewsNotifier.BatchDispatch
import NewsNotifier.BoundedRetries

namespace NewsNotifier

open Interleaving

/-- The deliveries that a sweep at `now` has to retry. -/
structure Data.Awaits (d : Data) (now : Time) (log : DeliveryLog) : Prop where
  stored : log ∈ d.db.logs
  status : log.status = .pending ∨ log.status = .failed
  aged : log.createdAt ≤ now - stuckDeliveryThreshold
  active : d.db.isActive log.marketId = true

/-- A sweep has read the clock and the stuck deliveries, and enqueued each of them. -/
structure Sweeps (now : Time) (ids : List Uuid) (h more : List NewsSaid) : Prop where
  parts : h = ⟨.utcnow, now⟩ :: ⟨.stuckDeliveries (now - stuckDeliveryThreshold), ids⟩ :: more
  asked : ∀ id ∈ ids, ∃ r, ⟨.enqueueJob (.deliverBatch id) (.deliverBatch id) none, r⟩ ∈ more

theorem enqueueStuckDeliveries_tells : enqueueStuckDeliveries.Tells (fun _ _ => True)
    (fun h _ => ∃ now ids more, Sweeps now ids h more) [] := by
  refine ⟨True.intro, fun now _ => ⟨True.intro, fun ids _ => ?_⟩⟩
  simp only [Prog.ret_bind]
  let K (rest : List Uuid) (h : List NewsSaid) : Prop :=
    ∃ more, h = ⟨.utcnow, now⟩ :: ⟨.stuckDeliveries (now - stuckDeliveryThreshold), ids⟩ :: more ∧
      ∀ id ∈ ids, id ∈ rest ∨ ∃ r, ⟨.enqueueJob (.deliverBatch id) (.deliverBatch id) none, r⟩ ∈ more
  have first : K ids [⟨.utcnow, now⟩, ⟨.stuckDeliveries (now - stuckDeliveryThreshold), ids⟩] :=
    ⟨[], rfl, fun id hid => .inl hid⟩
  refine Prog.Obeys.mono (Prog.Obeys.forEach (K := K) (F := fun _ _ => True) ?_ ids first)
    (fun h _ done => ?_) fun _ _ _ => True.intro
  · intro id rest h held
    obtain ⟨more, parts, asked⟩ := held
    refine ⟨True.intro, fun r _ => ⟨more ++ [⟨_, r⟩], by rw [parts]; rfl, fun id' hid => ?_⟩⟩
    rcases asked id' hid with left | ⟨r', said⟩
    · rcases List.mem_cons.mp left with rfl | later
      · exact .inr ⟨r, List.mem_append_right _ List.mem_cons_self⟩
      · exact .inl later
    · exact .inr ⟨r', List.mem_append_left _ said⟩
  · obtain ⟨more, parts, asked⟩ := done
    exact ⟨now, ids, more, parts, fun id hid => (asked id hid).resolve_left List.not_mem_nil⟩

section Runs

variable {lib : PyLib} {admits : Admits} {i : JobId} {cfg : Settings} {w w' : ArqWorld} {tr : List ArqEvents}

theorem sweep_starts {p : Program Unit} {a : Arq}
    (hs : (arqSys lib admits).start i (.enqueueStuckDeliveries, cfg) w.data = some (p, a)) :
    p = enqueueStuckDeliveries := by
  obtain ⟨⟨p', d⟩, started, same⟩ := Option.map_eq_some_iff.mp hs
  obtain ⟨_, _, _, rfl, _⟩ := newsSys_start started
  exact (Prod.mk.inj same).1.symm

/-- A read of the stuck deliveries lists every delivery that has to be retried. -/
theorem awaiting_listed {now : Time} {ids : List Uuid} {l' : List Write} {a a' : Arq}
    (hx : arqExec lib i (.stuckDeliveries (now - stuckDeliveryThreshold)) ids [] a = some (l', a'))
    {log : DeliveryLog} (awaits : a.data.Awaits now log) : log.id ∈ ids := by
  obtain ⟨⟨l₁, d₁⟩, read, _⟩ := Option.map_eq_some_iff.mp hx
  obtain ⟨ok, _, _⟩ := answered_eq read
  refine (List.isPerm_iff.mp ok).mem_iff.mpr (List.mem_map_of_mem (List.mem_filter.mpr ⟨awaits.stored, ?_⟩))
  rcases awaits.status with pending | failed
  · simp [Database.after, pending, awaits.aged, awaits.active]
  · simp [Database.after, failed, awaits.aged, awaits.active]

/-- The sweep reads them with nothing staged. -/
theorem second_read {e₁ e₂ : ArqEvents} {more : List ArqEvents} {now : Time} {ids : List Uuid}
    (run : Execution (arqSys lib admits) i (.enqueueStuckDeliveries, cfg) w (e₁ :: e₂ :: more) w')
    (first : e₁.said = ⟨.utcnow, now⟩) (second : e₂.said = ⟨.stuckDeliveries (now - stuckDeliveryThreshold), ids⟩)
    {log : DeliveryLog} (awaits : e₂.data.data.Awaits now log) : log.id ∈ ids := by
  obtain ⟨s₁, r₁, l₁, a₁⟩ := e₁
  obtain ⟨s₂, r₂, l₂, a₂⟩ := e₂
  obtain ⟨rfl, _⟩ := Sigma.mk.inj first
  obtain ⟨rfl, answer⟩ := Sigma.mk.inj second
  obtain rfl := eq_of_heq answer
  obtain ⟨w₁, _, l', a', start, _, live, hx, _⟩ := run.split (List.singleton_append (x := _)).symm
  have none : l₂ = [] := by
    refine start.resting (fun e he l' a' hx => ?_) live
    obtain rfl := List.mem_singleton.mp he
    obtain ⟨⟨_, _⟩, read, same⟩ := Option.map_eq_some_iff.mp hx
    obtain ⟨_, rfl, _⟩ := answered_eq read
    exact (Prod.mk.inj same).1.symm
  subst none
  exact awaiting_listed hx awaits

/-- A sweep that has returned enqueued every delivery that had to be retried, and each was live after
its enqueue if and only if it was live before or no result of it was kept. -/
theorem retried_deliveries (run : Execution (arqSys lib admits) i (.enqueueStuckDeliveries, cfg) w tr w')
    {l : List Write} (returned : w'.proc i = some (.ret (), l)) :
    ∃ e₁ e₂ more now, tr = e₁ :: e₂ :: more ∧ e₁.said = ⟨.utcnow, now⟩ ∧
      e₂.stmt = .stuckDeliveries (now - stuckDeliveryThreshold) ∧
      ∀ log, e₂.data.data.Awaits now log → ∃ e ∈ more, ∃ v v', e.stmt = .enqueueJob (.deliverBatch log.id)
          (.deliverBatch log.id) none ∧ v.data = e.data ∧ Steps (arqSys lib admits) w v ∧
        Step (arqSys lib admits) v v' ∧ Steps (arqSys lib admits) v' w' ∧
        (v'.data.data.redis.live (.deliverBatch log.id) = true ↔
          v.data.data.redis.live (.deliverBatch log.id) = true ∨ v.data.kept (.deliverBatch log.id) = false) := by
  obtain ⟨now, ids, said, parts, asked⟩ := run.tells
    (fun p a hs => (sweep_starts hs).symm ▸ enqueueStuckDeliveries_tells) (fun _ _ => True.intro) returned
  obtain ⟨e₁, rest, rfl, first, tail⟩ := List.map_eq_cons_iff.mp parts
  obtain ⟨e₂, more, rfl, second, rfl⟩ := List.map_eq_cons_iff.mp tail
  refine ⟨e₁, e₂, more, now, rfl, first, congrArg Sigma.fst second, fun log awaits => ?_⟩
  have listed : log.id ∈ ids := second_read run first second awaits
  obtain ⟨r, said⟩ := asked log.id listed
  obtain ⟨e, he, same⟩ := List.mem_map.mp said
  obtain ⟨v, v', l', a', before, at_, hx, reached, step, after⟩ :=
    run.event (List.mem_cons_of_mem _ (List.mem_cons_of_mem _ he))
  refine ⟨e, he, v, v', congrArg Sigma.fst same, at_, before, step, after, ?_⟩
  obtain ⟨s, r', l₀, a⟩ := e
  obtain ⟨rfl, _⟩ := Sigma.mk.inj same
  rw [reached, at_]
  exact enqueue_live hx

end Runs

/-- A delivery that fails at its webhook, and the time until the next sweep. -/
def failedDelivery (pause : Time) : List ArqMove :=
  [.start (.call 3) (.job (.processCandidate 1 (sampleCandidate "b") none), sampleSettings)] ++
  arqExecs sampleLib (sampleOracle "t") (.call 3) 13 ++
  [.stop (.call 3), .start (.deliverBatch 4) (.job (.deliverBatch 4), sampleSettings)] ++
  arqExecs sampleLib (failingOracle (some "k") 500) (.deliverBatch 4) 11 ++
  [.stop (.deliverBatch 4), .env (.pass pause)]

def sweepMoves : List ArqMove := arqExecs sampleLib (sampleOracle "t") (.call 9) 3

def arqReturned (w : ArqWorld) (i : JobId) : Bool :=
  match w.proc i with
  | some (.ret _, _) => true
  | _ => false

theorem returned_of {w : ArqWorld} {i : JobId} (h : arqReturned w i = true) : ∃ l, w.proc i = some (.ret (), l) := by
  unfold arqReturned at h
  split at h
  next u l same => exact ⟨l, same⟩
  next => simp at h

/-- A failed log that the read of a sweep has to list. -/
def awaitedAt (e : ArqEvents) : Option DeliveryLog :=
  match e.stmt with
  | .stuckDeliveries cutoff => e.data.data.db.logs.find? fun log =>
    log.status == .failed && decide (log.createdAt ≤ cutoff) && e.data.data.db.isActive log.marketId
  | _ => none

theorem awaits_of {e : ArqEvents} {log : DeliveryLog} (h : awaitedAt e = some log) {now : Time}
    (read : e.stmt = .stuckDeliveries (now - stuckDeliveryThreshold)) : e.data.data.Awaits now log := by
  unfold awaitedAt at h
  rw [read] at h
  have stored := List.mem_of_find?_eq_some h
  have holds := List.find?_some h
  simp only [Bool.and_eq_true, beq_iff_eq, decide_eq_true_eq] at holds
  exact ⟨stored, .inr holds.1.1, holds.1.2, holds.2⟩

/-- Once the result of the failed attempt has expired, the sweep retries the delivery. -/
theorem retried_deliveries_sample : ∃ (w v : ArqWorld) (log : DeliveryLog),
    Reachable (arqSys sampleLib anyTask) sampleArq w ∧ Steps (arqSys sampleLib anyTask) w v ∧
    log.status = .failed ∧ v.data.data.redis.live (.deliverBatch log.id) = true := by
  have run : ((arqSys sampleLib anyTask).run sampleArqWorld (failedDelivery (keepResult + 1))).any (fun w =>
      ((arqSys sampleLib anyTask).execute (.call 9) (.enqueueStuckDeliveries, sampleSettings) w sweepMoves).any
        fun x => arqReturned x.2 (.call 9) && (x.1[1]?.bind awaitedAt).any fun log =>
          log.status == .failed && x.1.all fun e => !e.data.kept (.deliverBatch log.id)) = true := by
    decide +kernel
  obtain ⟨w, found, hp⟩ := (Option.any_eq_true _ _).mp run
  obtain ⟨⟨tr, w'⟩, sweep, hp⟩ := (Option.any_eq_true _ _).mp hp
  simp only [Bool.and_eq_true] at hp
  obtain ⟨l, ended⟩ := returned_of hp.1
  obtain ⟨log, awaited, hp⟩ := (Option.any_eq_true _ _).mp hp.2
  simp only [Bool.and_eq_true, beq_iff_eq, List.all_eq_true, Bool.not_eq_true'] at hp
  obtain ⟨e₁, e₂, more, now, rfl, _, read, retried⟩ := retried_deliveries (Sys.execute_execution sweep) ended
  obtain ⟨e, he, v, v', _, at_, before, step, _, live⟩ := retried log (awaits_of awaited read)
  have expired : v.data.kept (.deliverBatch log.id) = false := by
    rw [at_]
    exact hp.2 e (List.mem_cons_of_mem _ (List.mem_cons_of_mem _ he))
  exact ⟨w, v', log, Sys.run_steps found, before.tail step, hp.1, live.mpr (.inr expired)⟩

/-- Six minutes after a failed attempt the sweep finds its log failed, active and old enough, and
leaves it without a job: the result of the attempt is kept. -/
theorem refused_retry : ∃ (w w' : ArqWorld) (tr : List ArqEvents) (l : List Write) (log : DeliveryLog),
    Reachable (arqSys sampleLib anyTask) sampleArq w ∧
    Execution (arqSys sampleLib anyTask) (.call 9) (.enqueueStuckDeliveries, sampleSettings) w tr w' ∧
    w'.proc (.call 9) = some (.ret (), l) ∧ w.data.data.Awaits w.data.data.clock log ∧ log.status = .failed ∧
    w'.data.data.redis.live (.deliverBatch log.id) = false := by
  have run : ((arqSys sampleLib anyTask).run sampleArqWorld (failedDelivery (6 * 60 * 1000000))).any (fun w =>
      ((arqSys sampleLib anyTask).execute (.call 9) (.enqueueStuckDeliveries, sampleSettings) w sweepMoves).any
        fun x => arqReturned x.2 (.call 9) && w.data.data.db.logs.any fun log =>
          log.status == .failed && decide (log.createdAt ≤ w.data.data.clock - stuckDeliveryThreshold) &&
            w.data.data.db.isActive log.marketId && !x.2.data.data.redis.live (.deliverBatch log.id)) = true := by
    decide +kernel
  obtain ⟨w, found, hp⟩ := (Option.any_eq_true _ _).mp run
  obtain ⟨⟨tr, w'⟩, sweep, hp⟩ := (Option.any_eq_true _ _).mp hp
  simp only [Bool.and_eq_true, List.any_eq_true, beq_iff_eq, decide_eq_true_eq, Bool.not_eq_true'] at hp
  obtain ⟨returned, log, stored, ⟨⟨failed, aged⟩, active⟩, idle⟩ := hp
  obtain ⟨l, ended⟩ := returned_of returned
  exact ⟨w, w', tr, l, log, Sys.run_steps found, Sys.execute_execution sweep, ended,
    ⟨stored, .inr failed, aged, active⟩, failed, idle⟩

end NewsNotifier
