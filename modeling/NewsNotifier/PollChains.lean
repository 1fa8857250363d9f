import NewsNotifier.PollJobs
import NewsNotifier.NewsRuns

namespace NewsNotifier

open Interleaving

/-- Everything but the sweep. -/
def chainTask : Admits := fun i task cfg d =>
  queueTask i task cfg d &&
    match task with
    | .enqueueDueMarkets => false
    | _ => true

/-- The runs in which a request enqueues a poll only where none of the market is live. -/
def enqueuesAlone (i : JobId) (s : Stmt) (_ : Answer s) (_ : List Write) (d : Data) : Bool :=
  match s with
  | .enqueueJob id (.processMarket m) _ =>
    (d.tasksOf i).any (·.polls m) || d.heads m = 0 || d.redis.live id
  | _ => true

def chainContract : Contract JobId Raised Data where
  inv d := ∀ m, d.heads m ≤ 1
  act a d d' := (∀ m, d'.heads m ≤ 1) ∧ ∀ i, a ≠ some i → d'.entriesOf i = d.entriesOf i
  fault _ := True

abbrev Chains (lib : PyLib) (i : JobId) {α : Type} (p : Program α) (Q : α → List Write → Data → Prop)
    (l : List Write) (d : Data) : Prop :=
  wp ((newsSys lib chainTask).restrict enqueuesAlone) (chainContract.terms i) i p Q (fun _ => True) l d

section Rules

variable {lib : PyLib} {i : JobId} {α : Type} {l : List Write} {d d' : Data} {e : Running} {m : Uuid}
  {cfg cfg' : Settings} {Q : α → List Write → Data → Prop}

theorem chain_rely (h : (chainContract.terms i).rely d d') : d'.entriesOf i = d.entriesOf i := by
  refine Contract.rely_ind (R := fun d d' => d'.entriesOf i = d.entriesOf i) rfl
    (fun h h' => h'.trans h) ?_ h
  rintro c c' ⟨a, ne, _, _, _, entries⟩
  exact entries i ne

/-- A program that enqueues no poll leaves the running entry as it is. -/
theorem chains_each {p : Program α} (hp : p.Each Stmt.noPoll fun _ => True) (h : d.entriesOf i = [e]) :
    Chains lib i p (fun _ _ d => d.entriesOf i = [e]) l d := by
  refine wp_of_each (K := fun _ d => d.entriesOf i = [e]) hp
    (fun _ _ _ hr _ hk => (chain_rely hr).trans hk) ?_ h
  intro s hs r l d l' d' hk hi hx
  obtain ⟨heads, entries⟩ := exec_noPoll hs (Sys.exec_of_restrict hx).2
  exact ⟨⟨fun m => (heads m).trans_le (hi m), fun j _ => entries j⟩, (entries i).trans hk⟩

theorem chains_stmt {s : Stmt} {next : Answer s → Program α} (hs : s.noPoll) (h : d.entriesOf i = [e])
    (then_ : ∀ r l' (d' d'' : Data), exec lib i s r l d' = some (l', d'') → d''.entriesOf i = [e] →
      Chains lib i (next r) Q l' d'') : Chains lib i (.stmt s next) Q l d := by
  intro d' hr hi r l' d'' hx
  have hx := (Sys.exec_of_restrict hx).2
  obtain ⟨heads, entries⟩ := exec_noPoll hs hx
  exact ⟨⟨fun m => (heads m).trans_le (hi m), fun j _ => entries j⟩,
    then_ r l' d' d'' hx ((entries i).trans ((chain_rely hr).trans h))⟩

theorem chains_free {p : Program α} (hp : p.Each Stmt.noPoll fun _ => True) :
    Chains lib i p (fun _ _ _ => True) l d := by
  refine wp_of_each (K := fun _ _ => True) hp (fun _ _ _ _ _ h => h) ?_ True.intro
  intro s hs r l d l' d' _ hi hx
  obtain ⟨heads, entries⟩ := exec_noPoll hs (Sys.exec_of_restrict hx).2
  exact ⟨⟨fun m => (heads m).trans_le (hi m), fun j _ => entries j⟩, True.intro⟩

/-- The successor takes over from the running poll, which has none yet. -/
theorem dispatchCycle_chains (h : d.entriesOf i = [⟨i, .job (.processMarket m), cfg, false⟩]) (next : Time)
    (batchId : Option Uuid) (selected : List Candidate) :
    Chains lib i (dispatchCycle m next batchId selected) (fun _ _ _ => True) l d := by
  intro d' hr hi accepted l' d'' hx
  refine ⟨?_, chains_free (Prog.Each.forEach fun c _ => dispatchCandidate_does (fun _ h => h.noPoll)
    (fun _ => True.intro) True.intro batchId c True.intro fun _ _ _ _ => True.intro)⟩
  have own := (chain_rely hr).trans h
  have hx : exec lib i (.enqueueJob (.processMarket m next) (.processMarket m) (some next)) accepted l d' =
    some (l', d'') := (Sys.exec_of_restrict hx).2
  rcases exec_redis hx with ⟨queue, running⟩ | ⟨q, e, _, rfl⟩
  · exact ⟨fun m => (heads_same queue running).trans_le (hi m), fun j _ => by
      rw [Data.entriesOf, running, Data.entriesOf]⟩
  · have job : q.job = .processMarket m := by injection e with _ job; exact job.symm
    refine ⟨fun m' => ?_, fun j ne => entriesOf_enqueue fun e => ne (e ▸ rfl)⟩
    have count := @heads_enqueue_poll d' i q m' (by rw [job]; rfl)
    have le := hi m'
    simp only [own, job, List.countP_singleton, Running.heads, Task.polls, Job.polls, Bool.not_false,
      Bool.and_true] at count
    change (d'.enqueue i q).heads m' ≤ 1
    omega

theorem processMarket_chains (h : d.entriesOf i = [⟨i, .job (.processMarket m), cfg', false⟩]) :
    Chains lib i (processMarket lib cfg m) (fun _ _ _ => True) [] d := by
  have idle : ∀ {l : List Write} {d : Data}, Chains lib i (.ret () : Program Unit) (fun _ _ _ => True) l d :=
    fun _ _ _ => True.intro
  refine chains_stmt True.intro h fun found l₁ d₁ d₁' hx h₁ => ?_
  cases found with
  | none => exact idle
  | some market =>
    have id : market.id = m := by
      obtain ⟨ok, _, _⟩ := answered_eq hx
      exact (KeyedRows.key_of_find (of_decide_eq_true ok).symm).2
    simp only [Prog.ret_bind]
    split
    next => exact idle
    next =>
      refine wp_bind (wp_mono (chains_each (selectCandidates_does market (fun _ => True.intro)
        fun _ h => h.noPoll) h₁) ?_ fun _ h => h)
      rintro selected l₂ d₂ _ h₂ _
      refine chains_stmt True.intro h₂ fun now l₃ _ d₃ _ h₃ =>
        chains_stmt True.intro h₃ fun u l₄ _ d₄ _ h₄ => ?_
      simp only [Prog.ret_bind]
      refine wp_bind (wp_mono (chains_each (assignMarket_does market True.intro) h₄) ?_ fun _ h => h)
      rintro _ l₅ d₅ _ h₅ _
      refine wp_bind (wp_mono (chains_each (assignMarket_does market True.intro) h₅) ?_ fun _ h => h)
      rintro _ l₆ d₆ _ h₆ _
      split
      next =>
        refine chains_stmt True.intro h₆ fun _ l₇ _ d₇ _ h₇ => ?_
        exact dispatchCycle_chains (id ▸ h₇) _ none selected
      next =>
        refine chains_stmt True.intro h₆ fun new l₇ _ d₇ _ h₇ => ?_
        refine chains_stmt True.intro h₇ fun _ l₈ _ d₈ _ h₈ => ?_
        exact dispatchCycle_chains (id ▸ h₈) _ (some new.id) selected

/-- What is no poll enqueues one only where none is live. -/
theorem request_chains {p : Program Unit} (h : ∀ m, (d.tasksOf i).any (·.polls m) = false) :
    Chains lib i p (fun _ _ _ => True) l d := by
  refine wp_mono (wp_of_each (P := fun _ => True) (K := fun _ (d : Data) =>
    ∀ m, (d.tasksOf i).any (·.polls m) = false) (.trivial p) ?_ ?_ h) (fun _ _ _ _ _ => True.intro)
    fun _ h => h
  · intro l d d' hr _ hk m
    rw [Data.tasksOf_eq, chain_rely hr]
    exact hk m
  · intro s _ r l d l' d' hk hi hx
    obtain ⟨alone, hx⟩ := Sys.exec_of_restrict hx
    refine ⟨?_, fun m => by rw [exec_tasksOf hx i]; exact hk m⟩
    rcases exec_redis hx with ⟨queue, running⟩ | ⟨q, rfl, free, rfl⟩
    · exact ⟨fun m => (heads_same queue running).trans_le (hi m), fun j _ => by
        rw [Data.entriesOf, running, Data.entriesOf]⟩
    · refine ⟨fun m => ?_, fun j ne => entriesOf_enqueue fun e => ne (e ▸ rfl)⟩
      obtain ⟨id, job, t⟩ := q
      have old := hi m
      cases job with
      | processMarket m' =>
        have le := @heads_enqueue_le d i ⟨id, .processMarket m', t⟩ m
        by_cases same : m' = m
        · subst same
          simp only [enqueuesAlone, hk m', free, Bool.false_or, Bool.or_false, decide_eq_true_eq] at alone
          simp only [Job.polls, decide_true, if_true, alone] at le
          exact le
        · simp only [Job.polls, same, decide_false, Bool.false_eq_true, if_false] at le
          exact le.trans old
      | _ => exact (heads_enqueue_other rfl).trans_le old

end Rules

theorem chain_governs (lib : PyLib) :
    chainContract.Governs ((newsSys lib chainTask).restrict enqueuesAlone) where
  keep _ act := act.1
  start := by
    rintro i ⟨task, cfg⟩ d p d' hs hi
    obtain ⟨_, _, admitted, rfl, rfl⟩ := @newsSys_start lib chainTask _ _ _ _ _ _ hs
    simp only [chainTask, Bool.and_eq_true] at admitted
    refine ⟨⟨fun m => (heads_begin admitted.1).trans (hi m), fun j ne =>
      begin_entriesOf fun e => ne (e ▸ rfl)⟩, ?_⟩
    have own : (d.begin i task cfg).tasksOf i = [task] := (begin_tasksOf d i task cfg).1
    cases task with
    | job j =>
      cases j with
      | processMarket m => exact processMarket_chains begin_own
      | _ => exact request_chains (by simp [own, Task.polls, Job.polls])
    | _ => exact request_chains (by simp [own, Task.polls])
  stop {i d} hi := ⟨fun m => heads_finish.trans (hi m), fun j ne => finish_entriesOf fun e => ne (e ▸ rfl)⟩
  env := by
    rintro t d d' he hi
    obtain ⟨_, rfl⟩ := @newsSys_env lib chainTask _ _ _ he
    exact ⟨hi, fun _ _ => rfl⟩

/-- One polling chain a market, in the runs whose requests enqueue a poll only where none is live;
any other accepted one starts a second chain. -/
theorem single_chain (lib : PyLib) {d₀ : Data} (h₀ : d₀.Initial) :
    (∀ w : NewsWorld, Reachable ((newsSys lib chainTask).restrict enqueuesAlone) d₀ w →
      ∀ m, w.data.heads m ≤ 1) ∧
    ∀ i id m t r l d l' d', enqueuesAlone i (.enqueueJob id (.processMarket m) t) r l d = false →
      exec lib i (.enqueueJob id (.processMarket m) t) r l d = some (l', d') → 1 < d'.heads m := by
  constructor
  · intro w h
    have init : chainContract.inv d₀ := fun m => by simp [Data.heads, h₀.queue, h₀.running]
    exact ((chain_governs lib).sound init h).data
  · intro i id m t r l d l' d' second hx
    simp only [enqueuesAlone, Bool.or_eq_false_iff, decide_eq_false_iff_not] at second
    obtain ⟨⟨other, busy⟩, free⟩ := second
    simp only [exec, free, Bool.false_eq_true, if_false] at hx
    split at hx
    next =>
      obtain ⟨rfl, rfl⟩ := Prod.mk.inj (Option.some.inj hx)
      have count := @heads_enqueue_poll d i ⟨id, .processMarket m, t⟩ m rfl
      have none_own : (d.entriesOf i).countP (Running.heads m) = 0 := by
        refine List.countP_eq_zero.mpr fun e he => ?_
        have polls := List.any_eq_false.mp other e.task (List.mem_map_of_mem he)
        simp [Running.heads, polls]
      simp only [none_own, Job.polls, decide_true, if_true] at count
      omega
    next => simp at hx

def patch (status : MarketStatus) : MarketUpdateRequest := ⟨none, none, none, none, some status⟩

/-- A subscription and its first poll, which enqueues the next one an hour later. -/
def subscribed : List NewsMove :=
  .start (.call 1) (.subscribe ⟨"n", "d", none, "u", "s", none⟩, sampleSettings) ::
  execs sampleLib (sampleOracle "t") (.call 1) 7 ++
  .stop (.call 1) :: .start (.processMarket 2 0) (.job (.processMarket 2), sampleSettings) ::
  execs sampleLib (sampleOracle "t") (.processMarket 2 0) 11

theorem single_chain_sample : ∃ w : NewsWorld,
    w.data.redis.queue.map (·.id) = [.processMarket 2 3600000000] ∧ ∀ m, w.data.heads m ≤ 1 := by
  have run : (((newsSys sampleLib chainTask).restrict enqueuesAlone).run sampleWorld subscribed).map
      (fun w => w.data.redis.queue.map (·.id) == [.processMarket 2 3600000000]) = some true := by
    decide +kernel
  obtain ⟨w, steps, hp⟩ := Sys.run_reaches run
  exact ⟨w, by simpa using hp, (single_chain sampleLib sampleData_initial).1 w steps⟩

/-- The market is paused and reactivated before its deferred poll fires. -/
def reactivated : List NewsMove :=
  subscribed ++
  .stop (.processMarket 2 0) :: .env 60000000 ::
  .start (.call 2) (.updateMarket "n" (patch .paused), sampleSettings) ::
  execs sampleLib (sampleOracle "t") (.call 2) 6 ++
  .stop (.call 2) :: .start (.call 3) (.updateMarket "n" (patch .active), sampleSettings) ::
  execs sampleLib (sampleOracle "t") (.call 3) 6

theorem second_chain : ∃ w : NewsWorld, Reachable (newsSys sampleLib chainTask) sampleData w ∧
    w.data.redis.queue.map (·.id) = [.processMarket 2 3600000000, .processMarket 2 60000000] ∧
    w.data.heads 2 = 2 := by
  have run : ((newsSys sampleLib chainTask).run sampleWorld reactivated).map (fun w =>
      w.data.redis.queue.map (·.id) == [.processMarket 2 3600000000, .processMarket 2 60000000] &&
        decide (w.data.heads 2 = 2)) = some true := by
    decide +kernel
  obtain ⟨w, steps, hp⟩ := Sys.run_reaches run
  simp only [Bool.and_eq_true, beq_iff_eq, decide_eq_true_eq] at hp
  exact ⟨w, steps, hp⟩

end NewsNotifier
