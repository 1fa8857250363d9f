import NewsNotifier.TrackedJobs
import NewsNotifier.CycleChronology
import NewsNotifier.ResolvedSlots

namespace NewsNotifier

open Interleaving

variable {lib : PyLib} {admits : Admits} {m : Uuid} {id : JobId}

/-- The statements that leave the tracking sets and the abort set as they are. -/
def Stmt.keepsMarks : Stmt → Prop
  | .sadd _ _ => False
  | .zadd _ => False
  | .delete _ => False
  | _ => True

theorem exec_keepsMarks {i : JobId} {s : Stmt} {r : Answer s} {l l' : List Write} {d d' : Data}
    (hs : s.keepsMarks) (h : exec lib i s r l d = some (l', d')) :
    d'.redis.marketJobs = d.redis.marketJobs ∧ d'.redis.abortJobs = d.redis.abortJobs := by
  have read : ∀ {ok : Bool}, answered ok l d = some (l', d') →
      d'.redis.marketJobs = d.redis.marketJobs ∧ d'.redis.abortJobs = d.redis.abortJobs := by
    intro ok h
    obtain ⟨-, -, rfl⟩ := answered_eq h
    exact ⟨rfl, rfl⟩
  have moved : ∀ {l₁ : List Write} {d₁ : Data}, some (l₁, d₁) = some (l', d') →
      d₁.redis.marketJobs = d.redis.marketJobs ∧ d₁.redis.abortJobs = d.redis.abortJobs →
      d'.redis.marketJobs = d.redis.marketJobs ∧ d'.redis.abortJobs = d.redis.abortJobs := by
    intro l₁ d₁ h same
    obtain ⟨rfl, rfl⟩ := Prod.mk.inj (Option.some.inj h)
    exact same
  cases s with
  | sadd | zadd | delete => exact hs.elim
  | commit | assign | encryptSecret | decryptSecret | generateJson | searchSources | embedText | scrapeUrl |
      sendWebhook | sendTelegram | expire => exact moved h ⟨rfl, rfl⟩
  | advisoryXactLock | insertCandidate | countResolved | closeOpen | insertItem | insertLog | insertBatch |
      insertMarket | uuid4 | enqueueJob =>
    simp only [exec] at h
    repeat' split at h
    all_goals first
      | exact read h
      | exact moved h ⟨rfl, rfl⟩
      | simp at h
  | _ => exact read h

/-- The abort set only grows. -/
theorem exec_signalled {i : JobId} {s : Stmt} {r : Answer s} {l l' : List Write} {d d' : Data}
    (h : exec lib i s r l d = some (l', d')) (signalled : id ∈ d.redis.abortJobs) : id ∈ d'.redis.abortJobs := by
  cases s with
  | sadd | delete =>
    obtain ⟨-, rfl⟩ := Prod.mk.inj (Option.some.inj h)
    exact signalled
  | zadd ids =>
    obtain ⟨-, rfl⟩ := Prod.mk.inj (Option.some.inj h)
    exact List.mem_append_left _ signalled
  | _ =>
    have same := (exec_keepsMarks (by exact True.intro) h).2
    rw [same]
    exact signalled

/-- Every abort that has still to delete the market's set signals the job first. -/
def Reached (m : Uuid) (id : JobId) (w : NewsWorld) : Prop :=
  ∀ i p l ids, w.proc i = some (p, l) → aborting m p = some ids → id ∈ ids

/-- The job is signalled, or tracked where every abort under way reaches it. -/
def Covered (m : Uuid) (id : JobId) (w : NewsWorld) : Prop :=
  id ∈ w.data.redis.abortJobs ∨ (m, id) ∈ w.data.redis.marketJobs ∧ Reached m id w

def AllTracking (w : NewsWorld) : Prop := ∀ i p l, w.proc i = some (p, l) → Shaped p

theorem Reached.set {w : NewsWorld} (h : Reached m id w) {i : JobId} {q : Option (Program Unit × List Write)}
    {d : Data} (own : ∀ p l ids, q = some (p, l) → aborting m p = some ids → id ∈ ids) :
    Reached m id (w.set i q d) := by
  intro j p l ids hp ha
  by_cases same : j = i
  · subst same
    rw [World.set_self] at hp
    exact own p l ids hp ha
  · rw [World.set_other w same] at hp
    exact h j p l ids hp ha

theorem AllTracking.set {w : NewsWorld} (h : AllTracking w) {i : JobId} {q : Option (Program Unit × List Write)}
    {d : Data} (own : ∀ p l, q = some (p, l) → Shaped p) : AllTracking (w.set i q d) := by
  intro j p l hp
  by_cases same : j = i
  · subst same
    rw [World.set_self] at hp
    exact own p l hp
  · rw [World.set_other w same] at hp
    exact h j p l hp

theorem AllTracking.step {w w' : NewsWorld} (h : AllTracking w) (step : Step (newsSys lib admits) w w') :
    AllTracking w' := by
  cases step with
  | @exec i s next l l' d' r hp hx =>
    refine h.set fun p l₁ hq => ?_
    obtain ⟨rfl, -⟩ := Prod.mk.inj (Option.some.inj hq)
    exact (h i _ l hp r).1
  | @start i job p d' hp hs =>
    obtain ⟨-, -, -, rfl, -⟩ := @newsSys_start lib admits _ _ _ _ _ _ hs
    refine h.set fun p l₁ hq => ?_
    obtain ⟨rfl, -⟩ := Prod.mk.inj (Option.some.inj hq)
    exact (taskProgram_tracks job.1).1
  | stop hp => exact h.set fun p l₁ hq => by simp at hq
  | env he => exact h

/-- What one statement of process `i` leaves covered. -/
theorem covered_exec {w : NewsWorld} (tracking : AllTracking w) (covered : Covered m id w) {i : JobId} {s : Stmt}
    {next : Answer s → Program Unit} {l l' : List Write} {d' : Data} {r : Answer s}
    (hp : w.proc i = some (.stmt s next, l)) (hx : exec lib i s r l w.data = some (l', d')) :
    Covered m id (w.set i (some (next r, l')) d') := by
  rcases covered with signalled | ⟨tracked, reached⟩
  · exact .inl (exec_signalled hx signalled)
  · have shaped := (tracking i _ l hp r).2
    -- what the process stands within next, it has just read or stood within before
    have own : ∀ {d : Data}, (s.spares → (m, id) ∈ d.redis.marketJobs) →
        (∀ ids, Reads m ids s r → id ∈ ids) → s.spares → Covered m id (w.set i (some (next r, l')) d) := by
      intro d kept reads spares
      refine .inr ⟨kept spares, reached.set fun p l₁ ids hq ha => ?_⟩
      obtain ⟨rfl, -⟩ := Prod.mk.inj (Option.some.inj hq)
      rcases shaped m ids ha with read | ⟨ids', -, rfl⟩
      · exact reads ids read
      · exact spares.elim
    cases s with
    | zadd ids =>
      obtain ⟨-, rfl⟩ := Prod.mk.inj (Option.some.inj hx)
      by_cases within : aborting m (.stmt (.zadd ids) next) = none
      · refine .inr ⟨tracked, reached.set fun p l₁ ids' hq ha => ?_⟩
        obtain ⟨rfl, -⟩ := Prod.mk.inj (Option.some.inj hq)
        rcases shaped m ids' ha with read | ⟨ids₁, before, -⟩
        · exact read.elim
        · rw [within] at before
          simp at before
      · obtain ⟨ids', within⟩ := Option.ne_none_iff_exists'.mp within
        have mem := reached i _ l ids' hp within
        have same : ids' = ids := by
          simp only [aborting] at within
          split at within
          next => exact (Option.some.inj within).symm
          next => simp at within
        rw [same] at mem
        left
        by_cases old : id ∈ w.data.redis.abortJobs
        · exact List.mem_append_left _ old
        · exact List.mem_append_right _ (List.mem_filter.mpr ⟨mem, by simpa using old⟩)
    | delete m' =>
      obtain ⟨-, rfl⟩ := Prod.mk.inj (Option.some.inj hx)
      by_cases same : m' = m
      · have mem := reached i _ l [] hp (by simp [aborting, same])
        simp at mem
      · refine .inr ⟨List.mem_filter.mpr ⟨tracked, by simpa using Ne.symm same⟩,
          reached.set fun p l₁ ids hq ha => ?_⟩
        obtain ⟨rfl, -⟩ := Prod.mk.inj (Option.some.inj hq)
        rcases shaped m ids ha with read | ⟨ids', -, h⟩
        · exact read.elim
        · simp at h
    | sadd m' id' =>
      obtain ⟨-, rfl⟩ := Prod.mk.inj (Option.some.inj hx)
      refine own (fun _ => ?_) (fun _ read => read.elim) True.intro
      by_cases again : (m, id) = (m', id')
      · exact List.mem_append_right _ (by simp [again])
      · exact List.mem_append_left _ (List.mem_filter.mpr ⟨tracked, decide_eq_true again⟩)
    | smembers m' =>
      obtain ⟨perm, -, rfl⟩ := answered_eq hx
      refine own (fun _ => tracked) (fun ids read => ?_) True.intro
      obtain ⟨rfl, rfl⟩ := read
      have listed : id ∈ (w.data.redis.marketJobs.filter (·.1 = m')).map (·.2) :=
        List.mem_map.mpr ⟨(m', id), List.mem_filter.mpr ⟨tracked, by simp⟩, rfl⟩
      exact (List.isPerm_iff.mp perm).mem_iff.mpr listed
    | _ =>
      have same := (exec_keepsMarks (by exact True.intro) hx).1
      exact own (fun _ => by rw [same]; exact tracked) (fun _ read => read.elim) True.intro

/-- One step. -/
theorem Covered.step {w w' : NewsWorld} (tracking : AllTracking w) (covered : Covered m id w)
    (step : Step (newsSys lib admits) w w') : Covered m id w' := by
  cases step with
  | exec r hp hx => exact covered_exec tracking covered hp hx
  | @start i job p d' hp hs =>
    obtain ⟨-, -, -, rfl, rfl⟩ := @newsSys_start lib admits _ _ _ _ _ _ hs
    rcases covered with signalled | ⟨tracked, reached⟩
    · exact .inl signalled
    · refine .inr ⟨tracked, reached.set fun p l₁ ids hq ha => ?_⟩
      obtain ⟨rfl, -⟩ := Prod.mk.inj (Option.some.inj hq)
      rw [(taskProgram_tracks job.1).2 m] at ha
      simp at ha
  | stop hp =>
    rcases covered with signalled | ⟨tracked, reached⟩
    · exact .inl signalled
    · exact .inr ⟨tracked, reached.set fun p l₁ ids hq _ => by simp at hq⟩
  | env he =>
    obtain ⟨-, rfl⟩ := @newsSys_env lib admits _ _ _ he
    exact covered

/-- Every run. -/
theorem Covered.steps {w w' : NewsWorld} (tracking : AllTracking w) (covered : Covered m id w)
    (run : Steps (newsSys lib admits) w w') : AllTracking w' ∧ Covered m id w' := by
  induction run with
  | refl => exact ⟨tracking, covered⟩
  | tail _ step ih => exact ⟨ih.1.step step, ih.2.step ih.1 step⟩

theorem allTracking_reachable {d : Data} {w : NewsWorld} (reach : Reachable (newsSys lib admits) d w) :
    AllTracking w := by
  change Relation.ReflTransGen _ _ _ at reach
  induction reach with
  | refl => exact fun i p l hp => by simp at hp
  | tail _ step ih => exact ih.step step

theorem Covered.kept {w : NewsWorld} (h : Covered m id w) :
    (m, id) ∈ w.data.redis.marketJobs ∨ id ∈ w.data.redis.abortJobs := by
  rcases h with signalled | ⟨tracked, -⟩
  · exact .inr signalled
  · exact .inl tracked

/-- An abort that has not read the job deletes it unsignalled. -/
theorem abort_loses {w : NewsWorld} {i : JobId} {p : Program Unit} {l : List Write} {ids : List JobId}
    (hp : w.proc i = some (p, l)) (within : aborting m p = some ids) (unread : id ∉ ids)
    (unsignalled : id ∉ w.data.redis.abortJobs) :
    ∃ w', Steps (newsSys lib admits) w w' ∧ (m, id) ∉ w'.data.redis.marketJobs ∧
      id ∉ w'.data.redis.abortJobs := by
  have drops : ∀ (w : NewsWorld) (next : Unit → Program Unit), w.proc i = some (.stmt (.delete m) next, l) →
      id ∉ w.data.redis.abortJobs → ∃ w', Steps (newsSys lib admits) w w' ∧
        (m, id) ∉ w'.data.redis.marketJobs ∧ id ∉ w'.data.redis.abortJobs := by
    intro w next hp unsignalled
    refine ⟨_, .single (.exec () hp rfl), ?_, unsignalled⟩
    simp
  unfold aborting at within
  split at within
  next ids₁ next =>
    split at within
    next follows =>
      obtain rfl := Option.some.inj within
      unfold deletes at follows
      split at follows
      next m' next' hn =>
        obtain rfl : m' = m := by simpa using follows
        have signals : ∃ d', exec lib i (.zadd ids₁) () l w.data = some (l, d') ∧
            id ∉ d'.redis.abortJobs := by
          refine ⟨_, rfl, ?_⟩
          simp [unsignalled, unread]
        obtain ⟨d', hx, unsignalled'⟩ := signals
        have step : Step (newsSys lib admits) w (w.set i (some (next (), l)) d') := .exec () hp hx
        obtain ⟨w', run, lost⟩ := drops (w.set i (some (next (), l)) d') next' (by simp [hn]) unsignalled'
        exact ⟨w', .head step run, lost⟩
      next => simp at follows
    next => simp at within
  next m' next =>
    split at within
    next same =>
      subst same
      exact drops w next hp unsignalled
    next => simp at within
  next => simp at within

/-- In every run of any tasks, a job that its market's set holds from the start stays tracked or is
signalled; and a job that is registered stays so in every continuation if and only if it is signalled
already, or no abort of its market stands between its `smembers`, without the job, and its `delete`. -/
theorem tracked_jobs (lib : PyLib) (admits : Admits) {d : Data} {w : NewsWorld}
    (reach : Reachable (newsSys lib admits) d w) :
    (∀ m id, (m, id) ∈ d.redis.marketJobs →
      (m, id) ∈ w.data.redis.marketJobs ∨ id ∈ w.data.redis.abortJobs) ∧
    ∀ m id i next l l' d', w.proc i = some (.stmt (.sadd m id) next, l) →
      exec lib i (.sadd m id) () l w.data = some (l', d') →
      ((∀ w', Steps (newsSys lib admits) (w.set i (some (next (), l')) d') w' →
        (m, id) ∈ w'.data.redis.marketJobs ∨ id ∈ w'.data.redis.abortJobs) ↔
      id ∈ w.data.redis.abortJobs ∨ Reached m id w) := by
  constructor
  · intro m id mem
    have first : Covered m id ⟨d, fun _ => none⟩ := .inr ⟨mem, fun i p l ids hp => by simp at hp⟩
    have idle : AllTracking ⟨d, fun _ => none⟩ := fun i p l hp => by simp at hp
    exact (@Covered.steps lib admits m id _ _ idle first reach).2.kept
  intro m id i next l l' d' hp hx
  have tracking := allTracking_reachable reach
  have registers : Step (newsSys lib admits) w (w.set i (some (next (), l')) d') := .exec () hp hx
  obtain ⟨rfl, data⟩ := Prod.mk.inj (Option.some.inj hx)
  have heard : d'.redis.abortJobs = w.data.redis.abortJobs := by rw [← data]
  have listed : (m, id) ∈ d'.redis.marketJobs := by
    rw [← data]
    exact List.mem_append_right _ (by simp)
  have shaped := (tracking i _ l hp ()).2
  have outside : ∀ ids, aborting m (next ()) ≠ some ids := by
    intro ids ha
    rcases shaped m ids ha with read | ⟨_, -, h⟩
    · exact read.elim
    · simp at h
  constructor
  · intro always
    by_contra uncovered
    obtain ⟨unsignalled, unreached⟩ := not_or.mp uncovered
    unfold Reached at unreached
    push Not at unreached
    obtain ⟨j, p, l₁, ids, hj, within, unread⟩ := unreached
    have other : j ≠ i := by
      intro same
      subst same
      obtain ⟨rfl, -⟩ := Prod.mk.inj (Option.some.inj (hp.symm.trans hj))
      simp [aborting] at within
    obtain ⟨w', run, gone, unheard⟩ := @abort_loses lib admits m id (w.set i (some (next (), l)) d') j p l₁ ids
      ((World.set_other w other _ _).trans hj) within unread (by rw [World.set_data, heard]; exact unsignalled)
    exact (always w' run).elim gone unheard
  · intro safe w' run
    refine (@Covered.steps lib admits m id _ _ (tracking.step registers) ?_ run).2.kept
    rcases safe with signalled | reached
    · exact .inl (by rw [World.set_data, heard]; exact signalled)
    · refine .inr ⟨listed, reached.set fun p l₁ ids hq ha => ?_⟩
      obtain ⟨rfl, -⟩ := Prod.mk.inj (Option.some.inj hq)
      exact absurd ha (outside ids)

/-- A cycle stands before the registration of its candidate, an unsubscribe between its `smembers` and
its `delete`. -/
def lateRegistration : List NewsMove :=
  [.start (.call 1) (.job (.processMarket 1), sampleSettings), .start (.call 2) (.unsubscribe "m", sampleSettings)] ++
  execs sampleLib (undatedOracle .none) (.call 1) 13 ++ execs sampleLib (undatedOracle .none) (.call 2) 4

def registersFor (w : NewsWorld) : Option JobId :=
  match w.proc (.call 1) with
  | some (.stmt (.sadd 1 id) _, _) => some id
  | _ => none

def standsWithin (w : NewsWorld) (i : JobId) : Option (List JobId) :=
  match w.proc i with
  | some (p, _) => aborting 1 p
  | none => none

theorem tracked_jobs_sample : ∃ (w : NewsWorld) (next : Unit → Program Unit) (l l' : List Write) (d' : Data),
    Reachable (newsSys sampleLib anyTask) sampleData w ∧
    w.proc (.call 1) = some (.stmt (.sadd 1 (.processCandidate 1 "a")) next, l) ∧
    exec sampleLib (.call 1) (.sadd 1 (.processCandidate 1 "a")) () l w.data = some (l', d') ∧
    ¬ ∀ w', Steps (newsSys sampleLib anyTask) (w.set (.call 1) (some (next (), l')) d') w' →
      (1, .processCandidate 1 "a") ∈ w'.data.redis.marketJobs ∨
        .processCandidate 1 "a" ∈ w'.data.redis.abortJobs := by
  have run : ((newsSys sampleLib anyTask).run sampleWorld lateRegistration).map (fun w =>
      decide (registersFor w = some (.processCandidate 1 "a")) && decide (w.data.redis.abortJobs = []) &&
        decide (standsWithin w (.call 2) = some [])) = some true := by decide +kernel
  obtain ⟨w, reach, hp⟩ := Sys.run_reaches run
  simp only [Bool.and_eq_true, decide_eq_true_eq] at hp
  obtain ⟨⟨registers, quiet⟩, within⟩ := hp
  unfold registersFor at registers
  split at registers
  next id next l at_ =>
    obtain rfl := Option.some.inj registers
    refine ⟨w, next, l, _, _, reach, at_, rfl, fun always => ?_⟩
    rcases ((tracked_jobs sampleLib anyTask reach).2 _ _ _ _ _ _ _ at_ rfl).mp always with signalled | reached
    · simp [quiet] at signalled
    · unfold standsWithin at within
      split at within
      next p l₁ hp => exact List.not_mem_nil (reached _ p l₁ [] hp within)
      next => simp at within
  next => simp at registers

/-- The cycle registers its candidate, the unsubscribe deletes the set, and the candidate's job is
neither tracked nor signalled. -/
theorem late_registration : ∃ w w' : NewsWorld, Reachable (newsSys sampleLib anyTask) sampleData w ∧
    (1, .processCandidate 1 "a") ∈ w.data.redis.marketJobs ∧ Steps (newsSys sampleLib anyTask) w w' ∧
    hasReturned w' (.call 2) = true ∧ (1, .processCandidate 1 "a") ∉ w'.data.redis.marketJobs ∧
    .processCandidate 1 "a" ∉ w'.data.redis.abortJobs := by
  have run : (((newsSys sampleLib anyTask).run sampleWorld (lateRegistration ++
      execs sampleLib (undatedOracle .none) (.call 1) 1)).bind fun w =>
        ((newsSys sampleLib anyTask).run w (execs sampleLib (undatedOracle .none) (.call 2) 1)).map fun w' =>
          (w, w')).any (fun x => decide ((1, .processCandidate 1 "a") ∈ x.1.data.redis.marketJobs) &&
            hasReturned x.2 (.call 2) && decide (x.2.data.redis.marketJobs = []) &&
            decide (x.2.data.redis.abortJobs = [])) = true := by decide +kernel
  obtain ⟨⟨w, w'⟩, found, hp⟩ := (Option.any_eq_true _ _).mp run
  obtain ⟨v, first, second⟩ := Option.bind_eq_some_iff.mp found
  obtain ⟨v', later, same⟩ := Option.map_eq_some_iff.mp second
  obtain ⟨rfl, rfl⟩ := Prod.mk.inj same
  simp only [Bool.and_eq_true, decide_eq_true_eq] at hp
  obtain ⟨⟨⟨tracked, returned⟩, none⟩, unheard⟩ := hp
  refine ⟨v, v', Sys.run_steps first, tracked, Sys.run_steps later, returned, ?_, ?_⟩
  · simp [none]
  · simp [unheard]

end NewsNotifier
