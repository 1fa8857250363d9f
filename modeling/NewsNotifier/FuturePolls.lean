import NewsNotifier.PollCadence
import NewsNotifier.HalfEvenRounding
import NewsNotifier.FutureDates
import NewsNotifier.PollJobs
import NewsNotifier.BatchDispatch
import NewsNotifier.NewsRuns

namespace NewsNotifier

open Interleaving

section Draws

/-- A step times `1 + u`, as `timedelta` multiplies by a float. -/
def drawnStep (step : Int) (u : Rat) : Int := roundHalfEven (step * (1 + u))

/-- `_next_poll_at`; `none` is the `OverflowError` of `now + step`. -/
def nextPoll (resolutionDate : Option Int) (now : Int) (minutes : Int) (jitter u : Rat) : Option Int :=
  let next := nextPollAt resolutionDate now minutes jitter u
  if datetimeMin ≤ next ∧ next ≤ datetimeMax then some next else none

/-- The next poll is later than now and its step is the tier's, up to the jitter. -/
def PollsAhead (resolutionDate : Option Int) (now minutes : Int) (jitter u : Rat) : Prop :=
  ∃ next, nextPoll resolutionDate now minutes jitter u = some next ∧ now < next ∧
    now + drawnStep (pollStep resolutionDate now minutes) (-jitter) ≤ next ∧
    next ≤ now + drawnStep (pollStep resolutionDate now minutes) jitter

/-- The interval that applies leaves more than half a microsecond after the draw, and the poll is no
later than `datetime.max`. -/
structure LeavesStep (resolutionDate : Option Int) (now minutes : Int) (u : Rat) : Prop where
  positive : 1 / 2 < (cadenceMinutes resolutionDate now minutes * minute : Int) * (1 + u)
  fits : now + drawnStep (cadenceMinutes resolutionDate now minutes * minute) u ≤ datetimeMax

variable {resolutionDate : Option Int} {now minutes : Int} {jitter u : Rat}

theorem drawnStep_pos {step : Int} : 0 < drawnStep step u ↔ 1 / 2 < (step : Rat) * (1 + u) := by
  unfold drawnStep
  constructor
  · intro positive
    by_contra low
    have half : roundHalfEven (1 / 2) = 0 := by decide +kernel
    have rounded := roundHalfEven_mono (not_lt.mp low)
    omega
  · intro above
    have near := (roundHalfEven_near ((step : Rat) * (1 + u))).1
    have positive : (0 : Rat) < roundHalfEven (step * (1 + u)) := by linarith
    exact_mod_cast positive

theorem drawnStep_zero (step : Int) : drawnStep step 0 = step := by
  unfold drawnStep
  rw [add_zero, mul_one, roundHalfEven_intCast]

theorem drawnStep_mono {step : Int} (positive : 0 ≤ step) {v : Rat} (h : u ≤ v) :
    drawnStep step u ≤ drawnStep step v := by
  apply roundHalfEven_mono
  have scale : (0 : Rat) ≤ step := by exact_mod_cast positive
  exact mul_le_mul_of_nonneg_left (by linarith) scale

theorem nextPollAt_drawn (still : jitter = 0 → u = 0) :
    nextPollAt resolutionDate now minutes jitter u =
      now + drawnStep (pollStep resolutionDate now minutes) u := by
  by_cases punctual : jitter = 0
  · simp only [nextPollAt, punctual, if_true, still punctual, drawnStep_zero]
  · simp only [nextPollAt, punctual, if_false, drawnStep]

theorem pollsAhead_iff (valid : datetimeMin ≤ now) (below : jitter < 1) (low : -jitter ≤ u) (high : u ≤ jitter) :
    PollsAhead resolutionDate now minutes jitter u ↔ LeavesStep resolutionDate now minutes u := by
  have still : jitter = 0 → u = 0 := fun punctual => by linarith
  unfold PollsAhead nextPoll
  simp only [nextPollAt_drawn still, pollStep_eq]
  constructor
  · rintro ⟨next, returned, later, _⟩
    split at returned
    next fits =>
      obtain rfl := Option.some.inj returned
      exact ⟨drawnStep_pos.mp (by omega), fits.2⟩
    next => simp at returned
  · intro leaves
    have positive := drawnStep_pos.mpr leaves.positive
    have scale : (0 : Rat) < 1 + u := by linarith
    have step : 0 ≤ cadenceMinutes resolutionDate now minutes * minute := by
      by_contra negative
      have left : ((cadenceMinutes resolutionDate now minutes * minute : Int) : Rat) ≤ 0 := by
        exact_mod_cast (show cadenceMinutes resolutionDate now minutes * minute ≤ 0 by omega)
      have product := mul_nonpos_of_nonpos_of_nonneg left scale.le
      have above := leaves.positive
      linarith
    have least := drawnStep_mono step low
    have most := drawnStep_mono step high
    exact ⟨_, if_pos ⟨by omega, leaves.fits⟩, by omega, by omega, by omega⟩

/-- But for draws next to -1 only a negative interval stops the poll. -/
theorem positive_iff (draw : 1 / 120000000 < 1 + u) :
    1 / 2 < ((cadenceMinutes resolutionDate now minutes * minute : Int) : Rat) * (1 + u) ↔
      0 < cadenceMinutes resolutionDate now minutes := by
  constructor
  · intro above
    by_contra none
    have left : ((cadenceMinutes resolutionDate now minutes * minute : Int) : Rat) ≤ 0 := by
      have : cadenceMinutes resolutionDate now minutes * minute ≤ 0 := by unfold minute; omega
      exact_mod_cast this
    have product := mul_nonpos_of_nonpos_of_nonneg left (show 0 ≤ 1 + u by linarith)
    linarith
  · intro positive
    have whole : minute ≤ cadenceMinutes resolutionDate now minutes * minute := by unfold minute; omega
    have wide : ((minute : Int) : Rat) ≤ (cadenceMinutes resolutionDate now minutes * minute : Int) := by
      exact_mod_cast whole
    have size : ((minute : Int) : Rat) = 60000000 := by norm_num [minute]
    rw [size] at wide
    have scaled := mul_le_mul_of_nonneg_right wide (show 0 ≤ 1 + u by linarith)
    linarith

theorem cadenceMinutes_pos : 0 < cadenceMinutes resolutionDate now minutes ↔
    isNear resolutionDate now = true ∨ 0 < minutes := by
  cases resolutionDate with
  | none => simp [cadenceMinutes, isNear]
  | some r =>
    have tier := (tierMinutes_bounds r now).1
    by_cases near : isNear (some r) now = true
    · have positive : 0 < tierMinutes r now := by omega
      simp [cadenceMinutes, near, positive]
    · simp [cadenceMinutes, near]

end Draws

section Requests

/-- `payload.poll_interval_minutes or default`. -/
def requestedInterval (cfg : Settings) (body : MarketSubscribeRequest) : Int :=
  match body.pollIntervalMinutes with
  | none => cfg.defaultPollIntervalMinutes
  | some minutes => if minutes = 0 then cfg.defaultPollIntervalMinutes else minutes

/-- The rows that `subscribe` asks for are those of the request. -/
def insertsRequested (cfg : Settings) (body : MarketSubscribeRequest) (s : Stmt) : Prop :=
  ∀ row, s = .insertMarket row →
    row.pollIntervalMinutes = requestedInterval cfg body ∧ row.resolutionDate = body.resolutionDate

theorem subscribe_inserts (cfg : Settings) (body : MarketSubscribeRequest) :
    (subscribe cfg body).Each (insertsRequested cfg body) fun _ => True := by
  have other : ∀ s, (∀ row, s ≠ .insertMarket row) → insertsRequested cfg body s :=
    fun s ne row e => absurd e (ne row)
  refine ⟨other _ (by simp), fun existing => ?_⟩
  simp only [Prog.ret_bind]
  cases existing with
  | some market => exact True.intro
  | none =>
    refine ⟨other _ (by simp), fun now => ⟨other _ (by simp), fun secret => ⟨other _ (by simp), fun id => ?_⟩⟩⟩
    refine ⟨fun row e => ?_, fun inserted => ?_⟩
    · obtain rfl := Stmt.insertMarket.inj e
      exact ⟨rfl, rfl⟩
    · simp only [Prog.ret_bind]
      split
      next => exact True.intro
      next => exact ⟨other _ (by simp), fun _ => ⟨other _ (by simp), fun _ => True.intro⟩⟩

theorem requestedInterval_pos {cfg : Settings} (positive : 0 < cfg.defaultPollIntervalMinutes)
    (body : MarketSubscribeRequest) :
    0 < requestedInterval cfg body ↔ ∀ minutes ∈ body.pollIntervalMinutes, 0 ≤ minutes := by
  unfold requestedInterval
  cases body.pollIntervalMinutes with
  | none => simp [positive]
  | some minutes =>
    by_cases zero : minutes = 0
    · simp [zero, positive]
    · simp only [zero, if_false, Option.mem_some_iff, forall_eq']
      omega

end Requests

section Programs

variable {lib : PyLib} {cfg : Settings}

/-- A poll that the cycle enqueues is its own next one, from the row, the time and the draw it read. -/
def enqueuesNext (cfg : Settings) (m : Uuid) (h : List NewsSaid) (s : Stmt) : Prop :=
  ∀ id m' deferUntil, s = .enqueueJob id (.processMarket m') deferUntil →
    ∃ market now u, ⟨.getMarket m, some market⟩ ∈ h ∧ ⟨.utcnow, now⟩ ∈ h ∧
      ⟨.uniform cfg.pollJitterFraction, u⟩ ∈ h ∧
      id = .processMarket market.id (nextPollAt market.resolutionDate now market.pollIntervalMinutes
        cfg.pollJitterFraction u)

theorem Stmt.noPoll.next {s : Stmt} (hs : s.noPoll) {m : Uuid} {h : List NewsSaid} :
    enqueuesNext cfg m h s := by
  intro id m' deferUntil e
  rw [e] at hs
  exact hs.elim

/-- A part of a cycle without polls only adds to what was said. -/
theorem noPoll_next {α : Type} {p : Program α} (each : p.Each Stmt.noPoll fun _ => True) {m : Uuid}
    (h : List NewsSaid) : p.Obeys (Monitor.history (fun _ _ _ => True) (enqueuesNext cfg m))
      (fun h' _ => h <+: h') (fun _ _ => True) h := by
  induction p generalizing h with
  | ret a => exact List.prefix_rfl
  | raise e => exact True.intro
  | stmt s next ih =>
    refine ⟨each.1.next, fun r _ => (ih r (each.2 r) (h ++ [⟨s, r⟩])).mono (fun h' _ grown => ?_) fun _ _ h => h⟩
    exact (List.prefix_append h _).trans grown

theorem dispatchCycle_next {m : Uuid} {h : List NewsSaid} {market : Market} {now : Time} {u : Rat}
    (row : ⟨.getMarket m, some market⟩ ∈ h) (time : ⟨.utcnow, now⟩ ∈ h)
    (draw : ⟨.uniform cfg.pollJitterFraction, u⟩ ∈ h) (batchId : Option Uuid) (selected : List Candidate) :
    (dispatchCycle market.id (nextPollAt market.resolutionDate now market.pollIntervalMinutes
      cfg.pollJitterFraction u) batchId selected).Obeys
      (Monitor.history (fun _ _ _ => True) (enqueuesNext cfg m)) (fun _ _ => True) (fun _ _ => True) h := by
  refine ⟨fun id m' deferUntil e => ?_, fun _ _ => ?_⟩
  · obtain ⟨rfl, _, _⟩ := Stmt.enqueueJob.inj e
    exact ⟨market, now, u, row, time, draw, rfl⟩
  · have rest : (Prog.forEach selected (dispatchCandidate market.id batchId)).Each Stmt.noPoll fun _ => True :=
      Prog.Each.forEach fun c _ => dispatchCandidate_does (fun _ h => h.noPoll)
        (fun _ => True.intro) True.intro batchId c True.intro fun _ _ _ _ => True.intro
    exact (noPoll_next rest _).mono (fun _ _ _ => True.intro) fun _ _ h => h

theorem processMarket_next (m : Uuid) : (processMarket lib cfg m).Obeys
    (Monitor.history (fun _ _ _ => True) (enqueuesNext cfg m)) (fun _ _ => True) (fun _ _ => True) [] := by
  have free (s : Stmt) (hs : s.noPoll) (h : List NewsSaid) : enqueuesNext cfg m h s := hs.next
  refine ⟨free (.getMarket m) True.intro _, fun found _ => ?_⟩
  cases found with
  | none => exact True.intro
  | some market =>
    simp only [Prog.ret_bind]
    split
    next => exact True.intro
    next =>
      have search : (selectCandidates lib cfg market).Each Stmt.noPoll fun _ => True :=
        selectCandidates_does market (fun _ => True.intro) fun _ h => h.noPoll
      have assign (change : MarketChange) : (assignMarket market change).Each Stmt.noPoll fun _ => True :=
        assignMarket_does market True.intro
      refine ((noPoll_next search _).mono (fun h₁ selected grown₁ => ?_) fun _ _ h => h).bind
      have row : (⟨.getMarket m, some market⟩ : NewsSaid) ∈ h₁ := grown₁.subset (by simp [Monitor.history])
      refine ⟨free .utcnow True.intro _, fun now _ => ⟨free (.uniform _) True.intro _, fun u _ => ?_⟩⟩
      simp only [Prog.ret_bind]
      refine ((noPoll_next (assign _) _).mono (fun h₂ _ grown₂ => ?_) fun _ _ h => h).bind
      refine ((noPoll_next (assign _) _).mono (fun h₃ _ grown₃ => ?_) fun _ _ h => h).bind
      have grown := grown₂.trans grown₃
      have row₃ : (⟨.getMarket m, some market⟩ : NewsSaid) ∈ h₃ :=
        grown.subset (by simp [Monitor.history, row])
      have time₃ : (⟨.utcnow, now⟩ : NewsSaid) ∈ h₃ := grown.subset (by simp [Monitor.history])
      have draw₃ : (⟨.uniform cfg.pollJitterFraction, u⟩ : NewsSaid) ∈ h₃ :=
        grown.subset (by simp [Monitor.history])
      split
      next =>
        refine ⟨free .commit True.intro _, fun _ _ => ?_⟩
        exact dispatchCycle_next (List.mem_append_left _ row₃) (List.mem_append_left _ time₃)
          (List.mem_append_left _ draw₃) none selected
      next =>
        refine ⟨free (.insertBatch _ _ _) True.intro _, fun new _ => ⟨free .commit True.intro _, fun _ _ => ?_⟩⟩
        exact dispatchCycle_next (List.mem_append_left _ (List.mem_append_left _ row₃))
          (List.mem_append_left _ (List.mem_append_left _ time₃))
          (List.mem_append_left _ (List.mem_append_left _ draw₃)) (some new.id) selected

end Programs

section Chains

variable {lib : PyLib} {admits : Admits} {m : Uuid} {s t : Time}

/-- A run of `process_market` under the id of time `s`, started no earlier, which enqueues the id of
time `t`; the row, the time and the draw behind `t` meet the condition. -/
structure PollRun (lib : PyLib) (admits : Admits) (m : Uuid) (s t : Time) where
  cfg : Settings
  first : NewsWorld
  last : NewsWorld
  trace : List NewsEvent
  execution : Execution (newsSys lib admits) (.processMarket m s) (.job (.processMarket m), cfg) first trace last
  due : s ≤ first.data.clock
  accepted : Bool
  staged : List Write
  data : Data
  enqueued : ⟨.enqueueJob (.processMarket m t) (.processMarket m) (some t), accepted, staged, data⟩ ∈ trace
  leaves : ∀ market now u, Took trace (.getMarket m) (some market) → Took trace .utcnow now →
    Took trace (.uniform cfg.pollJitterFraction) u →
    t = nextPollAt market.resolutionDate now market.pollIntervalMinutes cfg.pollJitterFraction u →
    LeavesStep market.resolutionDate now market.pollIntervalMinutes u

theorem PollRun.later (run : PollRun lib admits m s t) : s < t := by
  obtain ⟨before, after, split⟩ := List.append_of_mem run.enqueued
  have starts : ∀ p d', (newsSys lib admits).start (.processMarket m s) (.job (.processMarket m), run.cfg)
      run.first.data = some (p, d') → p.Obeys (Monitor.history (fun _ _ _ => True) (enqueuesNext run.cfg m))
        (fun _ _ => True) (fun _ _ => True) [] := by
    intro p d' hs
    obtain ⟨_, _, _, rfl, _⟩ := @newsSys_start lib admits _ _ _ _ _ _ hs
    exact processMarket_next m
  obtain ⟨market, now, u, row, time, draw, id⟩ :=
    run.execution.recorded starts (fun _ _ _ _ => True.intro) split _ _ _ rfl
  have took {s : Stmt} {r : Answer s} (said : (⟨s, r⟩ : NewsSaid) ∈ before.map Event.said) :
      Took run.trace s r := by
    obtain ⟨⟨s', r', l, d⟩, he, same⟩ := List.mem_map.mp said
    cases same
    exact ⟨l, d, by rw [split]; exact List.mem_append_left _ he⟩
  have next := (JobId.processMarket.inj id).2
  have leaves := run.leaves market now u (took row) (took time) (took draw) next
  have since : s ≤ now := by
    obtain ⟨l, d, event⟩ := took time
    obtain ⟨w₁, _, _, _, steps, at_, executed, _⟩ := run.execution.event event
    have clock : now = d.clock := of_decide_eq_true (answered_eq executed).1
    have passed := clock_le steps
    rw [at_] at passed
    exact clock ▸ run.due.trans passed
  have still : run.cfg.pollJitterFraction = 0 → u = 0 := by
    intro punctual
    obtain ⟨l, d, event⟩ := took draw
    obtain ⟨_, _, _, _, _, _, executed, _⟩ := run.execution.event event
    have bounds := (answered_eq executed).1
    simp only [punctual, abs_zero, Bool.and_eq_true, decide_eq_true_eq] at bounds
    linarith
  have positive := drawnStep_pos.mpr leaves.positive
  rw [nextPollAt_drawn still, pollStep_eq] at next
  rw [next]
  have ahead : (now : Int) < now + drawnStep
    (cadenceMinutes market.resolutionDate now market.pollIntervalMinutes * minute) u :=
    Int.lt_add_of_pos_right now positive
  exact lt_of_le_of_lt since ahead

/-- Its own earlier ids are the only ones of its chain, so the enqueue is accepted. -/
theorem PollRun.unrefused (run : PollRun lib admits m s t)
    (own : ∀ s', run.data.redis.live (.processMarket m s') = true → s' ≤ s) : run.accepted = true := by
  obtain ⟨_, _, _, _, _, _, executed, _⟩ := run.execution.event run.enqueued
  have free : run.data.redis.live (.processMarket m t) = false := by
    by_contra live
    have early := own t (by simpa using live)
    exact absurd run.later (not_lt.mpr early)
  simp only [newsSys, exec, free] at executed
  by_contra refused
  simp [refused] at executed

theorem pollRuns_increase {times : List Time}
    (chain : times.IsChain fun s t => Nonempty (PollRun lib admits m s t)) :
    times.Pairwise (· < ·) ∧ (times.map (JobId.processMarket m)).Nodup := by
  have ordered : times.IsChain (· < ·) := chain.imp fun _ _ ⟨run⟩ => run.later
  have sorted := List.isChain_iff_pairwise.mp ordered
  refine ⟨sorted, ?_⟩
  apply List.Nodup.map
  · intro s t same
    exact (JobId.processMarket.inj same).2
  · exact sorted.imp fun lt => ne_of_lt lt

end Chains

theorem future_polls (lib : PyLib) (admits : Admits) {cfg : Settings}
    (fallback : 0 < cfg.defaultPollIntervalMinutes) (body : MarketSubscribeRequest) :
    (subscribe cfg body).Each (insertsRequested cfg body) (fun _ => True) ∧
    (∀ (now : Int) (jitter u : Rat), datetimeMin ≤ now → jitter < 1 → -jitter ≤ u → u ≤ jitter →
      (PollsAhead body.resolutionDate now (requestedInterval cfg body) jitter u ↔
        LeavesStep body.resolutionDate now (requestedInterval cfg body) u)) ∧
    (∀ (now : Int) (u : Rat), 1 / 120000000 < 1 + u →
      (1 / 2 < (cadenceMinutes body.resolutionDate now (requestedInterval cfg body) * minute : Int) * (1 + u) ↔
        isNear body.resolutionDate now = true ∨ ∀ minutes ∈ body.pollIntervalMinutes, 0 ≤ minutes)) ∧
    (∀ (m : Uuid) (times : List Time), times.IsChain (fun s t => Nonempty (PollRun lib admits m s t)) →
      times.Pairwise (· < ·) ∧ (times.map (JobId.processMarket m)).Nodup) ∧
    ∀ (m : Uuid) (s t : Time) (run : PollRun lib admits m s t),
      (∀ s', run.data.redis.live (.processMarket m s') = true → s' ≤ s) → run.accepted = true := by
  refine ⟨subscribe_inserts cfg body, fun now jitter u valid below low high => pollsAhead_iff valid below low high,
    fun now u draw => ?_, fun m times chain => pollRuns_increase chain, fun m s t run own => run.unrefused own⟩
  rw [positive_iff draw, cadenceMinutes_pos, requestedInterval_pos fallback]

/-- Every five minutes, into the past. -/
def hurried : MarketSubscribeRequest := ⟨"n", "d", none, "u", "s", some (-5)⟩

theorem hurried_poll : nextPoll hurried.resolutionDate 0 (requestedInterval sampleSettings hurried) 0 0 =
      some (-5 * minute) ∧
    ¬ PollsAhead hurried.resolutionDate 0 (requestedInterval sampleSettings hurried) 0 0 := by
  have past : nextPoll hurried.resolutionDate 0 (requestedInterval sampleSettings hurried) 0 0 =
      some (-5 * minute) := by decide +kernel
  refine ⟨past, fun ⟨next, returned, later, _⟩ => ?_⟩
  obtain rfl := Option.some.inj (past.symm.trans returned)
  exact absurd later (by decide)

def pollTask : Task × Settings := (.job (.processMarket 1), sampleSettings)

/-- What the sample cycle reads. -/
def readsSample : NewsEvent → Bool
  | ⟨.getMarket _, some market, _, _⟩ => market = sampleMarket
  | ⟨.utcnow, now, _, _⟩ => now = (0 : Int)
  | ⟨.uniform _, u, _, _⟩ => u = (0 : Rat)
  | _ => true

def enqueuesHourly : NewsEvent → Bool
  | ⟨.enqueueJob id job deferUntil, accepted, _, _⟩ => id = .processMarket 1 (60 * minute) &&
      job = .processMarket 1 && deferUntil = some (60 * minute) && accepted
  | _ => false

theorem samplePoll : Nonempty (PollRun sampleLib plainTask 1 0 (60 * minute)) := by
  have run : ((newsSys sampleLib plainTask).execute (.processMarket 1 0) pollTask sampleWorld
      (execs sampleLib (sampleOracle "t") (.processMarket 1 0) 11)).any (fun x =>
        x.1.all readsSample && x.1.any enqueuesHourly) = true := by decide +kernel
  obtain ⟨⟨tr, w⟩, found, hp⟩ := (Option.any_eq_true _ _).mp run
  obtain ⟨reads, enqueues⟩ := (Bool.and_eq_true _ _).mp hp
  obtain ⟨e, he, this⟩ := List.any_eq_true.mp enqueues
  unfold enqueuesHourly at this
  split at this
  next id job deferUntil accepted l d =>
    simp only [Bool.and_eq_true, decide_eq_true_eq] at this
    obtain ⟨⟨⟨rfl, rfl⟩, rfl⟩, _⟩ := this
    refine ⟨⟨sampleSettings, sampleWorld, w, tr, Sys.execute_execution found, le_rfl, accepted, l, d, he, ?_⟩⟩
    intro market now u ⟨_, _, row⟩ ⟨_, _, time⟩ ⟨_, _, draw⟩ _
    obtain rfl : market = sampleMarket := of_decide_eq_true (List.all_eq_true.mp reads _ row)
    obtain rfl : now = (0 : Int) := of_decide_eq_true (List.all_eq_true.mp reads _ time)
    obtain rfl : u = (0 : Rat) := of_decide_eq_true (List.all_eq_true.mp reads _ draw)
    exact ⟨by decide +kernel, by decide +kernel⟩
  next => simp at this

theorem future_polls_sample : PollsAhead hurried.resolutionDate 0 (requestedInterval sampleSettings
      { hurried with pollIntervalMinutes := some 5 }) (1 / 10) (-1 / 10) ∧
    [0, 60 * minute].Pairwise (· < ·) := by
  obtain ⟨_, ahead, _, chains, _⟩ := @future_polls sampleLib plainTask sampleSettings (by decide)
    { hurried with pollIntervalMinutes := some 5 }
  refine ⟨(ahead 0 (1 / 10) (-1 / 10) (by decide) (by norm_num) (by norm_num) (by norm_num)).mpr ?_, ?_⟩
  · exact ⟨by decide +kernel, by decide +kernel⟩
  · exact (chains 1 [0, 60 * minute] (.cons_cons samplePoll (.singleton _))).1

end NewsNotifier
