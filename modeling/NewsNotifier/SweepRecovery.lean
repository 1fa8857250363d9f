import NewsNotifier.PollChains
import NewsNotifier.CommittedRows

namespace NewsNotifier

open Interleaving

def Task.sweeps : Task → Bool
  | .enqueueDueMarkets => true
  | _ => false

/-- The process `i` is a sweep of the due markets. -/
def Data.sweeping (d : Data) (i : JobId) : Bool := (d.tasksOf i).any (·.sweeps)

/-- A poll of market `m` is live under this id. -/
def Data.Polls (d : Data) (m : Uuid) (id : JobId) : Prop :=
  (∃ q ∈ d.redis.queue, q.id = id ∧ q.job.polls m = true) ∨
    ∃ e ∈ d.redis.running, e.id = id ∧ e.task.polls m = true

/-- The markets whose polls a program enqueues next. -/
def pollsNext : Program Unit → List Uuid
  | .stmt .utcnow next => pollsNext (next (0 : Time))
  | .stmt (.enqueueJob _ (.processMarket m) _) next => m :: pollsNext (next true)
  | _ => []

/-- The markets that a sweep has found due and not yet enqueued. -/
def inHand (w : NewsWorld) (i : JobId) : List Uuid :=
  match w.proc i with
  | some (p, _) => pollsNext p
  | none => []

/-- The runs in which no market that a sweep finds due has a live poll, and nobody else enqueues a
poll of a market that a sweep has in hand. -/
def recoversLost (w : NewsWorld) : Allows := fun i s r _ d =>
  match s, r with
  | .dueMarkets _, r => r.all fun m => !d.hasPoll m
  | .enqueueJob id (.processMarket m) _, _ =>
    d.redis.live id || d.redis.running.all fun e => e.id = i || !e.task.sweeps || !(inHand w e.id).contains m
  | _, _ => true

theorem hasPoll_iff {d : Data} {m : Uuid} : d.hasPoll m = true ↔ ∃ id, d.Polls m id := by
  simp only [Data.hasPoll, Bool.or_eq_true, List.any_eq_true]
  constructor
  · rintro (⟨q, hq, h⟩ | ⟨e, he, h⟩)
    · exact ⟨q.id, .inl ⟨q, hq, rfl, h⟩⟩
    · exact ⟨e.id, .inr ⟨e, he, rfl, h⟩⟩
  · rintro ⟨id, ⟨q, hq, _, h⟩ | ⟨e, he, _, h⟩⟩
    · exact .inl ⟨q, hq, h⟩
    · exact .inr ⟨e, he, h⟩

theorem Data.Polls.live {d : Data} {m : Uuid} {id : JobId} (h : d.Polls m id) : d.redis.live id = true := by
  simp only [Redis.live, Bool.or_eq_true, List.any_eq_true, decide_eq_true_eq]
  rcases h with ⟨q, hq, own, _⟩ | ⟨e, he, own, _⟩
  · exact .inl ⟨q, hq, own⟩
  · exact .inr ⟨e, he, own⟩

theorem sweeping_running {d : Data} {i : JobId} (h : d.sweeping i = true) :
    ∃ e ∈ d.redis.running, e.id = i ∧ e.task.sweeps = true := by
  obtain ⟨task, ht, sweeps⟩ := List.any_eq_true.mp h
  obtain ⟨e, he, rfl⟩ := List.mem_map.mp ht
  obtain ⟨mem, own⟩ := List.mem_filter.mp he
  exact ⟨e, mem, by simpa using own, sweeps⟩

section Rules

variable {lib : PyLib} {i : JobId} {d d' : Data} {m : Uuid} {q : Queued}

/-- The polls after an enqueue are the old ones and the enqueued one. -/
theorem polls_enqueue {id : JobId} (h : (d.enqueue i q).Polls m id) :
    d.Polls m id ∨ q.id = id ∧ q.job.polls m = true := by
  rcases h with ⟨q', hq, own, polls⟩ | ⟨e, he, own, polls⟩
  · rcases List.mem_append.mp hq with hq | hq
    · exact .inl (.inl ⟨q', hq, own, polls⟩)
    · obtain rfl := List.mem_singleton.mp hq
      exact .inr ⟨own, polls⟩
  · obtain ⟨e', he', rfl⟩ := List.mem_map.mp he
    refine .inl (.inr ⟨e', he', ?_⟩)
    split at own <;> split at polls <;> exact ⟨own, polls⟩

/-- An enqueued poll joins the old ones. -/
theorem enqueue_polls {id : JobId} (h : d.Polls m id) (polls : q.job.polls m = true) :
    (d.enqueue i q).Polls m id ∧ (d.enqueue i q).Polls m q.id := by
  refine ⟨?_, .inl ⟨q, List.mem_append_right _ List.mem_cons_self, rfl, polls⟩⟩
  rcases h with ⟨q', hq, own, polls⟩ | ⟨e, he, own, polls⟩
  · exact .inl ⟨q', List.mem_append_left _ hq, own, polls⟩
  · refine .inr ⟨_, List.mem_map_of_mem he, ?_⟩
    split <;> exact ⟨own, polls⟩

theorem polls_same (queue : d'.redis.queue = d.redis.queue) (running : d'.redis.running = d.redis.running)
    {id : JobId} (h : d'.Polls m id) : d.Polls m id := by
  simpa only [Data.Polls, queue, running] using h

end Rules

theorem begin_polls {i : JobId} {task : Task} {cfg : Settings} {d : Data}
    (admitted : queueTask i task cfg d = true) {m : Uuid} {id : JobId}
    (h : (d.begin i task cfg).Polls m id) : d.Polls m id := by
  rcases h with ⟨q, hq, own, polls⟩ | ⟨e, he, own, polls⟩
  · exact .inl ⟨q, List.mem_of_mem_filter hq, own, polls⟩
  · rcases List.mem_cons.mp he with rfl | he
    · cases task with
      | job j =>
        simp only [queueTask, List.any_eq_true, Bool.and_eq_true, decide_eq_true_eq] at admitted
        obtain ⟨q, hq, ⟨same, job⟩, _⟩ := admitted
        exact .inl ⟨q, hq, same.trans own, job ▸ polls⟩
      | _ => simp [Task.polls] at polls
    · exact .inr ⟨e, List.mem_of_mem_filter he, own, polls⟩

theorem finish_polls {d : Data} {i : JobId} {m : Uuid} {id : JobId} (h : ((d.release i).finish i).Polls m id) :
    d.Polls m id := by
  rcases h with h | ⟨e, he, own, polls⟩
  · exact .inl h
  · exact .inr ⟨e, List.mem_of_mem_filter he, own, polls⟩

section Sweeps

variable {lib : PyLib} {d₀ d : Data} {i : JobId} {m : Uuid} {w w' : NewsWorld}

/-- How far a sweep is: the markets that it has read are without a poll, but for those of its own. -/
inductive SweepAt (d : Data) (p : Program Unit) : Prop
  | first (e : p = enqueueDueMarkets)
  | cutoff (start : Time) (e : p = do
      let marketIds ← await (.dueMarkets (start - overdueThreshold))
      let now ← await .utcnow
      Prog.forEach marketIds (enqueuePoll now))
  | due (ms : List Uuid) (e : p = do
      let now ← await .utcnow
      Prog.forEach ms (enqueuePoll now)) (lost : ∀ m ∈ ms, ∀ id, ¬d.Polls m id)
  | hand (now : Time) (ms : List Uuid) (e : p = Prog.forEach ms (enqueuePoll now))
      (lost : ∀ m ∈ ms, ∀ id, d.Polls m id → id = .processMarket m now)

theorem pollsNext_forEach (now : Time) (ms : List Uuid) : pollsNext (Prog.forEach ms (enqueuePoll now)) = ms := by
  induction ms with
  | nil => rfl
  | cons m ms ih => exact congrArg (m :: ·) ih

/-- A sweep is as far when no market in its hand gets a poll. -/
theorem SweepAt.kept {d' : Data} {p : Program Unit} (h : SweepAt d p)
    (polls : ∀ m ∈ pollsNext p, ∀ id, d'.Polls m id → d.Polls m id) : SweepAt d' p := by
  cases h with
  | first e => exact .first e
  | cutoff start e => exact .cutoff start e
  | due ms e lost =>
    subst e
    have hand : ∀ m ∈ ms, ∀ id, d'.Polls m id → d.Polls m id := by
      intro m hm
      refine polls m ?_
      show m ∈ pollsNext (Prog.forEach ms (enqueuePoll 0))
      rw [pollsNext_forEach]
      exact hm
    exact .due ms rfl fun m hm id hp => lost m hm id (hand m hm id hp)
  | hand now ms e lost =>
    subst e
    rw [pollsNext_forEach] at polls
    exact .hand now ms rfl fun m hm id hp => lost m hm id (polls m hm id hp)

/-- An accepted enqueue of a sweep is of a market without a poll. -/
theorem SweepAt.accepts {id : JobId} {t : Option Time} {next : Bool → Program Unit}
    (h : SweepAt d (.stmt (.enqueueJob id (.processMarket m) t) next)) (free : d.redis.live id = false) :
    d.hasPoll m = false := by
  cases h with
  | first e => exact nomatch e
  | cutoff start e => exact nomatch e
  | due ms e => exact nomatch e
  | hand now ms e lost =>
    cases ms with
    | nil => exact nomatch e
    | cons m' ms =>
      injection e with e
      injection e with e₁ e₂
      obtain rfl : m = m' := by injection e₂
      refine Bool.eq_false_iff.mpr fun busy => ?_
      obtain ⟨other, hp⟩ := hasPoll_iff.mp busy
      have live := hp.live
      rw [lost m List.mem_cons_self other hp, ← e₁, free] at live
      exact Bool.noConfusion live

/-- Its own statement takes a sweep on. -/
theorem SweepAt.exec {s : Stmt} {next : Answer s → Program Unit} {r : Answer s} {l l' : List Write} {d' : Data}
    (h : SweepAt d (.stmt s next)) (allowed : recoversLost w i s r l d = true)
    (hx : NewsNotifier.exec lib i s r l d = some (l', d')) : SweepAt d' (next r) := by
  cases h with
  | first e =>
    cases e
    exact .cutoff r rfl
  | cutoff start e =>
    cases e
    obtain ⟨_, _, rfl⟩ := answered_eq hx
    refine .due r rfl fun m hm id hp => ?_
    have free : d'.hasPoll m = false := by simpa using List.all_eq_true.mp allowed m hm
    rw [hasPoll_iff.mpr ⟨id, hp⟩] at free
    exact Bool.noConfusion free
  | due ms e lost =>
    cases e
    obtain ⟨_, _, rfl⟩ := answered_eq hx
    exact .hand r ms rfl fun m hm id hp => absurd hp (lost m hm id)
  | hand now ms e lost =>
    cases ms with
    | nil => exact nomatch e
    | cons m ms =>
      cases e
      refine .hand now ms rfl fun m' hm id hp => ?_
      rcases exec_redis hx with ⟨queue, running⟩ | ⟨q, e, _, rfl⟩
      · exact lost m' (List.mem_cons_of_mem _ hm) id (polls_same queue running hp)
      · rcases polls_enqueue hp with old | ⟨rfl, polls⟩
        · exact lost m' (List.mem_cons_of_mem _ hm) id old
        · injection e with e₁ e₂
          rw [← e₂] at polls
          obtain rfl : m = m' := by simpa [Job.polls] using polls
          exact e₁.symm

/-- The others leave a sweep its task, and no market in its hand gets a poll from them. -/
theorem sweep_beside (step : StepIf (newsSys lib queueTask) recoversLost w w') (same : w'.proc i = w.proc i)
    (sweeps : w'.data.sweeping i = true) : w.data.sweeping i = true ∧
      ∀ m ∈ inHand w i, ∀ id, w'.data.Polls m id → w.data.Polls m id := by
  cases step.apart same with
  | @exec k s next l l' d' r ne hp hx =>
    obtain ⟨allowed, hx⟩ := Sys.exec_of_restrict hx
    have own : w.data.sweeping i = true := by
      rw [World.set_data, Data.sweeping, exec_tasksOf hx i] at sweeps
      exact sweeps
    refine ⟨own, fun m hand id hp => ?_⟩
    rcases exec_redis hx with ⟨queue, running⟩ | ⟨⟨id', job, t⟩, rfl, free, rfl⟩
    · exact polls_same queue running hp
    · rcases polls_enqueue hp with old | ⟨_, polls⟩
      · exact old
      · obtain ⟨m', rfl⟩ : ∃ m', job = .processMarket m' := by
          cases job with
          | processMarket m' => exact ⟨m', rfl⟩
          | _ => exact Bool.noConfusion polls
        obtain rfl : m' = m := by simpa [Job.polls] using polls
        obtain ⟨e, he, rfl, hs⟩ := sweeping_running own
        simp only [recoversLost, free, Bool.false_or, List.all_eq_true] at allowed
        have alone := allowed e he
        simp [ne.symm, hs, hand] at alone
  | @start k job p d' ne _ hs =>
    obtain ⟨_, _, admitted, _, rfl⟩ := @newsSys_start lib queueTask _ _ _ _ _ _ hs
    refine ⟨?_, fun m _ id hp => begin_polls admitted hp⟩
    rw [World.set_data, Data.sweeping, (begin_tasksOf _ _ _ _).2 i ne.symm] at sweeps
    exact sweeps
  | @stop k ne =>
    refine ⟨?_, fun m _ id hp => finish_polls hp⟩
    have tasks := finish_tasksOf w.data k ne.symm
    rw [World.set_data] at sweeps
    change ((w.data.release k).finish k).sweeping i = true at sweeps
    rw [Data.sweeping, tasks] at sweeps
    exact sweeps
  | env he =>
    obtain ⟨_, rfl⟩ := @newsSys_env lib queueTask _ _ _ he
    exact ⟨sweeps, fun _ _ _ hp => hp⟩

/-- Every live sweep is on its way. -/
def SweepsOn (w : NewsWorld) : Prop :=
  ∀ i p l, w.proc i = some (p, l) → w.data.sweeping i = true → SweepAt w.data p

theorem sweepsOn_step (old : SweepsOn w) (step : StepIf (newsSys lib queueTask) recoversLost w w') : SweepsOn w' := by
  intro i p l live sweeps
  by_cases same : w'.proc i = w.proc i
  · obtain ⟨own, polls⟩ := sweep_beside step same sweeps
    have live := same.symm.trans live
    refine (old i p l live own).kept fun m hm => polls m ?_
    rw [inHand, live]
    exact hm
  · rcases step.own same with ⟨s, next, l₀, r, l', d', hp, hx, rfl⟩ | ⟨⟨task, cfg⟩, p', d', _, hs, rfl⟩ | rfl
    · obtain ⟨allowed, hx⟩ := Sys.exec_of_restrict hx
      obtain ⟨rfl, _⟩ := Prod.mk.inj (Option.some.inj ((World.set_self _ _ _ _).symm.trans live))
      have own : w.data.sweeping i = true := by
        rw [World.set_data, Data.sweeping, exec_tasksOf hx i] at sweeps
        exact sweeps
      exact (old i _ _ hp own).exec allowed hx
    · obtain ⟨_, _, _, rfl, rfl⟩ := @newsSys_start lib queueTask _ _ _ _ _ _ hs
      obtain ⟨rfl, _⟩ := Prod.mk.inj (Option.some.inj ((World.set_self _ _ _ _).symm.trans live))
      rw [World.set_data, Data.sweeping, (begin_tasksOf _ _ _ _).1] at sweeps
      cases task with
      | enqueueDueMarkets => exact .first rfl
      | _ => simp [Task.sweeps] at sweeps
    · rw [World.set_self] at live
      exact nomatch live

theorem sweeps_on (h : StepsIf (newsSys lib queueTask) recoversLost ⟨d₀, fun _ => none⟩ w) : SweepsOn w := by
  induction h with
  | refl => exact fun _ _ _ live => nomatch live
  | tail _ step ih => exact sweepsOn_step ih step

/-- The poll of the market has been enqueued, or refused. -/
def AskedFor (h : List (Said Answer)) (m : Uuid) : Prop :=
  ∃ now accepted, ⟨.enqueueJob (.processMarket m now) (.processMarket m) (some now), accepted⟩ ∈ h

/-- A sweep asks the queue for every market that it has read. -/
theorem enqueueDueMarkets_tells : enqueueDueMarkets.Tells (fun _ _ => True)
    (fun h _ => ∀ cutoff ms, ⟨.dueMarkets cutoff, ms⟩ ∈ h → ∀ m ∈ ms, AskedFor h m) [] := by
  refine ⟨True.intro, fun start _ => ⟨True.intro, fun ms _ => ⟨True.intro, fun now _ => ?_⟩⟩⟩
  refine Prog.Obeys.mono (Prog.Obeys.forEach (K := fun (rest : List Uuid) (h : List (Said Answer)) =>
    ∀ cutoff ms, ⟨.dueMarkets cutoff, ms⟩ ∈ h → ∀ m ∈ ms, AskedFor h m ∨ m ∈ rest) (F := fun _ _ => True) ?_ ms ?_)
    (fun h _ asked cutoff ms said m hm => (asked cutoff ms said m hm).resolve_right List.not_mem_nil) fun _ _ h => h
  · intro m rest h asked
    refine ⟨True.intro, fun accepted _ cutoff ms said m' hm => ?_⟩
    have before : ⟨.dueMarkets cutoff, ms⟩ ∈ h := by
      rcases List.mem_append.mp said with said | said
      · exact said
      · exact nomatch congrArg Sigma.fst (List.mem_singleton.mp said)
    rcases asked cutoff ms before m' hm with ⟨now', accepted', there⟩ | waiting
    · exact .inl ⟨now', accepted', List.mem_append_left _ there⟩
    · rcases List.mem_cons.mp waiting with rfl | later
      · exact .inl ⟨now, accepted, List.mem_append_right _ List.mem_cons_self⟩
      · exact .inr later
  · intro cutoff ms' said m hm
    have own : ms' = ms := by
      simp only [Monitor.history, List.nil_append, List.cons_append, List.mem_cons, List.not_mem_nil, or_false] at said
      rcases said with said | said | said
      · exact nomatch congrArg Sigma.fst said
      · injection said with _ same
      · exact nomatch congrArg Sigma.fst said
    exact .inr (own ▸ hm)

/-- On the way from `w` to `w'` the process `i` adds a poll of the market to a live one. -/
def AddsSecond (lib : PyLib) (i : JobId) (m : Uuid) (w w' : NewsWorld) : Prop :=
  ∃ w₁ w₂ other added, Steps (newsSys lib queueTask) w w₁ ∧ Step (newsSys lib queueTask) w₁ w₂ ∧
    Steps (newsSys lib queueTask) w₂ w' ∧ w₂.proc i ≠ w₁.proc i ∧ w₁.data.Polls m other ∧ ¬w₁.data.Polls m added ∧
      w₂.data.Polls m other ∧ w₂.data.Polls m added

/-- A sweep that asks for a market with a live poll adds a second one, unless that very job is live. -/
theorem asked_second {cfg : Settings} {tr : List NewsEvent}
    (run : Execution (newsSys lib queueTask) i (.enqueueDueMarkets, cfg) w tr w')
    {e : NewsEvent} (he : e ∈ tr) {now : Time}
    (asks : e.stmt = .enqueueJob (.processMarket m now) (.processMarket m) (some now)) :
    e.data.hasPoll m = false ∨ e.data.redis.live (.processMarket m now) = true ∨ AddsSecond lib i m w w' := by
  cases busy : e.data.hasPoll m with
  | false => exact .inl rfl
  | true =>
    cases free : e.data.redis.live (.processMarket m now) with
    | true => exact .inr (.inl rfl)
    | false =>
      obtain ⟨other, polls⟩ := hasPoll_iff.mp busy
      obtain ⟨before, after, split⟩ := List.append_of_mem he
      obtain ⟨w₁, next, l', d', first, at_, live, hx, rest⟩ := run.split split
      obtain ⟨s, r, l, d⟩ := e
      obtain rfl : s = .enqueueJob (.processMarket m now) (.processMarket m) (some now) := asks
      obtain rfl : w₁.data = d := at_
      have added : d' = w₁.data.enqueue i ⟨.processMarket m now, .processMarket m, some now⟩ := by
        have hx : exec lib i (.enqueueJob (.processMarket m now) (.processMarket m) (some now)) r l w₁.data =
            some (l', d') := hx
        have free : w₁.data.redis.live (.processMarket m now) = false := free
        simp only [exec, free, Bool.false_eq_true, if_false] at hx
        split at hx
        next => exact (Prod.mk.inj (Option.some.inj hx)).2.symm
        next => exact nomatch hx
      have second := enqueue_polls (i := i) (q := ⟨.processMarket m now, .processMarket m, some now⟩)
        (show w₁.data.Polls m other from polls) (decide_eq_true rfl)
      refine .inr (.inr ⟨w₁, _, other, .processMarket m now, first.steps, .exec r live hx, rest, ?_, polls, ?_, ?_, ?_⟩)
      · rw [World.set_self, live]
        exact fun same => Prog.next_ne r (Prod.mk.inj (Option.some.inj same)).1
      · intro there
        have live := there.live
        exact Bool.noConfusion (free.symm.trans live)
      · rw [World.set_data, added]
        exact second.1
      · rw [World.set_data, added]
        exact second.2

/-- In the runs where no market that a sweep finds due has a live poll, and nobody else enqueues a
poll of a market in its hand, whatever poll a sweep adds is of a market without one. In any run a
sweep asks for every market that it has found due: one that still has a live poll then gets a second
one, unless the job asked for is live itself. -/
theorem sweep_recovers_lost (lib : PyLib) {d₀ : Data} :
    (∀ w w' : NewsWorld, StepsIf (newsSys lib queueTask) recoversLost ⟨d₀, fun _ => none⟩ w →
      StepIf (newsSys lib queueTask) recoversLost w w' → ∀ i, w.data.sweeping i = true → w'.proc i ≠ w.proc i →
        ∀ q m, w'.data.accepted = q :: w.data.accepted → q.job = .processMarket m → w.data.hasPoll m = false) ∧
    ∀ i cfg (w w' : NewsWorld) tr l, Execution (newsSys lib queueTask) i (.enqueueDueMarkets, cfg) w tr w' →
      w'.proc i = some (.ret (), l) → ∀ e ∈ tr, ∀ cutoff ms, e.said = ⟨.dueMarkets cutoff, ms⟩ → ∀ m ∈ ms,
        ∃ e' ∈ tr, ∃ now, e'.stmt = .enqueueJob (.processMarket m now) (.processMarket m) (some now) ∧
          (e'.data.hasPoll m = false ∨ e'.data.redis.live (.processMarket m now) = true ∨ AddsSecond lib i m w w') := by
  constructor
  · intro w w' h step i sweeps moved q m added job
    rcases step.own moved with ⟨s, next, l, r, l', d', hp, hx, rfl⟩ | ⟨⟨task, cfg⟩, p', d', _, hs, rfl⟩ | rfl
    · obtain ⟨_, hx⟩ := Sys.exec_of_restrict hx
      have on := sweeps_on h i _ l hp sweeps
      rw [World.set_data] at added
      cases exec_outcome hx with
      | enqueued q' e free =>
        obtain rfl : q' = q := (List.cons.inj added).1
        subst e
        obtain ⟨id, job', t⟩ := q'
        obtain rfl : job' = .processMarket m := job
        exact on.accepts free
      | _ => exact absurd added.symm (List.cons_ne_self _ _)
    · obtain ⟨_, _, _, _, rfl⟩ := @newsSys_start lib queueTask _ _ _ _ _ _ hs
      exact absurd added.symm (List.cons_ne_self _ _)
    · exact absurd added.symm (List.cons_ne_self _ _)
  · intro i cfg w w' tr l run ended e he cutoff ms said m hm
    have told := run.tells (fun p d hs => by
      obtain ⟨_, _, _, rfl, _⟩ := @newsSys_start lib queueTask _ _ _ _ _ _ hs
      exact enqueueDueMarkets_tells) (fun _ _ => True.intro) ended
    obtain ⟨now, accepted, asked⟩ := told cutoff ms (said ▸ List.mem_map_of_mem he) m hm
    obtain ⟨e', he', same⟩ := List.mem_map.mp asked
    have asks : e'.stmt = .enqueueJob (.processMarket m now) (.processMarket m) (some now) := congrArg Sigma.fst same
    exact ⟨e', he', now, asks, asked_second run he' asks⟩

end Sweeps

def subscribing : List NewsMove :=
  .start (.call 1) (.subscribe ⟨"n", "d", none, "u", "s", none⟩, sampleSettings) ::
    execs sampleLib (sampleOracle "t") (.call 1) 7

/-- A sweep at ten minutes has the first market in hand, as another one is subscribed and polled. -/
def lateSweep : List NewsMove :=
  .env 600000000 :: .start (.call 5) (.enqueueDueMarkets, sampleSettings) ::
    execs sampleLib (sampleOracle "t") (.call 5) 3 ++ subscribing

/-- The first poll of a new market waits in the queue, and ten minutes pass. -/
def lateFirstPoll : List NewsMove := subscribing ++ [.stop (.call 1), .env 600000000]

/-- The poll of market 2 that is asked for, where another one is live. -/
def asksSecond (e : NewsEvent) : Bool :=
  match e.stmt with
  | .enqueueJob id (.processMarket m) _ => m ≠ 2 || (e.data.hasPoll 2 && !e.data.redis.live id)
  | _ => true

def foundDue (e : NewsEvent) : Option (List Uuid) :=
  match e.stmt, e.answer with
  | .dueMarkets _, ms => some ms
  | _, _ => none

theorem foundDue_eq {e : NewsEvent} {ms : List Uuid} (h : foundDue e = some ms) :
    ∃ cutoff, e.said = ⟨.dueMarkets cutoff, ms⟩ := by
  obtain ⟨s, r, l, d⟩ := e
  cases s with
  | dueMarkets cutoff => exact ⟨cutoff, congrArg (Sigma.mk (Stmt.dueMarkets cutoff)) (Option.some.inj h)⟩
  | _ => exact nomatch h

theorem sweep_recovers_lost_sample :
    (∃ w w' : NewsWorld, w.data.hasPoll 2 = true ∧ w.data.hasPoll 1 = false ∧
      w'.data.redis.queue.map (·.id) = [.processMarket 2 600000000, .processMarket 1 600000000]) ∧
    ∃ w w' : NewsWorld, AddsSecond sampleLib (.call 5) 2 w w' := by
  constructor
  · have run : ((newsSys sampleLib queueTask).runIf recoversLost sampleWorld lateSweep).map (fun w =>
        w.data.sweeping (.call 5) && w.data.hasPoll 2 &&
          (((newsSys sampleLib queueTask).restrict (recoversLost w)).move w
            (.exec (.call 5) (reply sampleLib (sampleOracle "t")))).any fun w' =>
            w'.data.redis.queue.map (·.id) == [.processMarket 2 600000000, .processMarket 1 600000000] &&
            decide (w'.data.accepted =
              ⟨.processMarket 1 600000000, .processMarket 1, some 600000000⟩ :: w.data.accepted)) =
        some true := by
      decide +kernel
    obtain ⟨w, steps, hp⟩ := Sys.runIf_reaches run
    simp only [Bool.and_eq_true] at hp
    obtain ⟨⟨sweeping, other⟩, hp⟩ := hp
    obtain ⟨w', hm, hp⟩ := (Option.any_eq_true _ _).mp hp
    simp only [Bool.and_eq_true, beq_iff_eq, decide_eq_true_eq] at hp
    exact ⟨w, w', other, (sweep_recovers_lost sampleLib).1 w w' steps (Sys.move_step hm) (.call 5) sweeping
      (Sys.move_own hm) _ 1 hp.2 rfl, hp.1⟩
  · have run : ((newsSys sampleLib queueTask).run sampleWorld lateFirstPoll).any (fun w =>
        ((newsSys sampleLib queueTask).execute (.call 5) (.enqueueDueMarkets, sampleSettings) w
          (execs sampleLib (sampleOracle "t") (.call 5) 5)).any fun x =>
            hasReturned x.2 (.call 5) && x.1.all asksSecond && x.1.any fun e => foundDue e == some [1, 2]) = true := by
      decide +kernel
    obtain ⟨w, _, hp⟩ := (Option.any_eq_true _ _).mp run
    obtain ⟨⟨tr, w'⟩, found, hp⟩ := (Option.any_eq_true _ _).mp hp
    simp only [Bool.and_eq_true, List.all_eq_true, List.any_eq_true, beq_iff_eq] at hp
    obtain ⟨⟨returned, second⟩, e, he, read⟩ := hp
    obtain ⟨l, ended⟩ := hasReturned_ret returned
    obtain ⟨cutoff, said⟩ := foundDue_eq read
    refine ⟨w, w', ?_⟩
    obtain ⟨e', he', now, asks, added⟩ := (@sweep_recovers_lost sampleLib sampleData).2 (.call 5) sampleSettings w w'
      tr l (Sys.execute_execution found) ended e he cutoff [1, 2] said 2 (by simp)
    have live := second e' he'
    simp only [asksSecond, asks, ne_eq, not_true_eq_false, decide_false, Bool.false_or, Bool.and_eq_true,
      Bool.not_eq_true'] at live
    exact (added.resolve_left (by simp [live.1])).resolve_left (by simp [live.2])

theorem doubled_poll : ∃ w w' : NewsWorld, Reachable (newsSys sampleLib queueTask) sampleData w ∧
    Step (newsSys sampleLib queueTask) w w' ∧ w.data.sweeping (.call 5) = true ∧
    w.data.db.isActive 2 = true ∧ w.data.redis.queue.any (·.job.polls 2) = true ∧
    w'.data.accepted = ⟨.processMarket 2 600000000, .processMarket 2, some 600000000⟩ :: w.data.accepted := by
  have run : ((newsSys sampleLib queueTask).run sampleWorld (lateFirstPoll ++
      .start (.call 5) (.enqueueDueMarkets, sampleSettings) :: execs sampleLib (sampleOracle "t") (.call 5) 4)).map (fun w =>
      w.data.sweeping (.call 5) && (w.data.db.isActive 2 && (w.data.redis.queue.any (·.job.polls 2) &&
        ((newsSys sampleLib queueTask).move w (.exec (.call 5) (reply sampleLib (sampleOracle "t")))).any
          fun w' => decide (w'.data.accepted =
            ⟨.processMarket 2 600000000, .processMarket 2, some 600000000⟩ :: w.data.accepted)))) =
      some true := by
    decide +kernel
  obtain ⟨w, steps, hp⟩ := Sys.run_reaches run
  simp only [Bool.and_eq_true] at hp
  obtain ⟨sweeping, active, queued, hp⟩ := hp
  obtain ⟨w', hm, hp⟩ := (Option.any_eq_true _ _).mp hp
  exact ⟨w, w', steps, Sys.move_step hm, sweeping, active, queued, by simpa using hp⟩

end NewsNotifier
