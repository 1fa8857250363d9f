import NewsNotifier.CycleChronology
import NewsNotifier.RetrySweep
import NewsNotifier.SlotStages

namespace NewsNotifier

open Interleaving

def JobId.isCandidate : JobId → Bool
  | .processCandidate _ _ => true
  | _ => false

/-- The runs in which a candidate's job is enqueued only while its id is not in `abort_jobs_ss`. -/
def enqueuesUnmarked (_ : JobId) (s : Stmt) (r : Answer s) (_ : List Write) (a : Arq) : Bool :=
  match s, r with
  | .enqueueJob id _ _, accepted => !id.isCandidate || !accepted || !a.marked id
  | _, _ => true

/-- Every mark on a candidate's job came after its enqueue. -/
structure Timely (a : Arq) : Prop where
  jobs : ∀ job ∈ a.jobs, job.2 < a.turn
  marks : ∀ mark ∈ a.marks, mark.2 < a.turn
  later : ∀ job ∈ a.jobs, job.1.isCandidate = true → ∀ mark ∈ a.marks, mark.1 = job.1 → job.2 < mark.2
  cancelled : ∀ c ∈ a.cancelled, c.id.isCandidate = true → c.enqueued < c.marked

namespace Timely

variable {a : Arq}

theorem data (h : Timely a) (d : Data) : Timely { a with data := d } := ⟨h.jobs, h.marks, h.later, h.cancelled⟩

theorem enqueue (h : Timely a) {id : JobId} (unmarked : id.isCandidate = true → a.marked id = false) :
    Timely (a.enqueue id) where
  jobs job hj := by
    rcases List.mem_cons.mp hj with rfl | old
    · exact Nat.lt_succ_self a.turn
    · exact Nat.lt_succ_of_lt (h.jobs job old)
  marks mark hm := Nat.lt_succ_of_lt (h.marks mark hm)
  later job hj candidate mark hm same := by
    rcases List.mem_cons.mp hj with rfl | old
    · have none := unmarked candidate
      have some : a.marked id = true := List.any_eq_true.mpr ⟨mark, hm, decide_eq_true same⟩
      rw [none] at some
      exact Bool.noConfusion some
    · exact h.later job old candidate mark hm same
  cancelled := h.cancelled

theorem mark (h : Timely a) (ids : List JobId) : Timely (a.mark ids) where
  jobs job hj := Nat.lt_succ_of_lt (h.jobs job hj)
  marks mark hm := by
    rcases List.mem_append.mp hm with new | old
    · obtain ⟨id, _, rfl⟩ := List.mem_map.mp new
      exact Nat.lt_succ_self a.turn
    · exact Nat.lt_succ_of_lt (h.marks mark old)
  later job hj candidate mark hm same := by
    rcases List.mem_append.mp hm with new | old
    · obtain ⟨id, _, rfl⟩ := List.mem_map.mp new
      exact h.jobs job hj
    · exact h.later job hj candidate mark old same
  cancelled := h.cancelled

theorem cancel (h : Timely a) (id : JobId) : Timely (a.cancel id) where
  jobs := h.jobs
  marks mark hm := h.marks mark (List.mem_of_mem_filter hm)
  later job hj candidate mark hm same := h.later job hj candidate mark (List.mem_of_mem_filter hm) same
  cancelled c hc candidate := by
    rcases List.mem_append.mp hc with old | new
    · exact h.cancelled c old candidate
    · obtain ⟨job, hj, hc⟩ := List.mem_flatMap.mp new
      obtain ⟨mark, hm, rfl⟩ := List.mem_map.mp hc
      obtain ⟨hj, own⟩ := List.mem_filter.mp hj
      obtain ⟨hm, same⟩ := List.mem_filter.mp hm
      have own : job.1 = id := of_decide_eq_true own
      have same : mark.1 = id := of_decide_eq_true same
      exact h.later job hj (own ▸ candidate) mark hm (same.trans own.symm)

theorem rests {a' : Arq} (h : Timely a) (rests : a.Rests a') : Timely a' := by
  obtain ⟨d, results, jobs, _, sub, rfl⟩ := rests
  exact ⟨fun job hj => h.jobs job (sub.subset hj), h.marks, fun job hj => h.later job (sub.subset hj), h.cancelled⟩

variable {lib : PyLib} {admits : Admits} {w w' : ArqWorld}

theorem exec (h : Timely a) {i : JobId} {s : Stmt} {r : Answer s} {l l' : List Write} {a' : Arq}
    (allowed : enqueuesUnmarked i s r l a = true) (hx : arqExec lib i s r l a = some (l', a')) : Timely a' := by
  rcases arqExec_cases hx with ⟨id, job, t, rfl⟩ | ⟨ids, d, _, rfl⟩ | ⟨d, rfl⟩
  · rcases arqExec_enqueue hx with ⟨_, _, rfl⟩ | ⟨accepted, _, _, rfl⟩
    · exact h
    · refine (h.data _).enqueue fun candidate => ?_
      have unmarked : a.marked id = false := by simpa [enqueuesUnmarked, accepted, candidate] using allowed
      exact unmarked
  · exact (h.data d).mark ids
  · exact h.data d

theorem step (h : Timely w.data) (step : Step ((arqSys lib admits).restrict enqueuesUnmarked) w w') :
    Timely w'.data := by
  rcases arq_step step with ⟨i, s, r, l, l', allowed, hx⟩ | ⟨a, rests, same | ⟨id, same⟩⟩
  · exact h.exec allowed hx
  · rw [same]
    exact h.rests rests
  · rw [same]
    exact (h.rests rests).cancel id

theorem reachable {a₀ : Arq} (h : Timely a₀)
    (reach : Reachable ((arqSys lib admits).restrict enqueuesUnmarked) a₀ w) : Timely w.data := by
  change Relation.ReflTransGen _ _ _ at reach
  induction reach with
  | refl => exact h
  | tail _ step ih => exact ih.step step

theorem unmarked {a : Arq} (h : Timely a) {id : JobId} (candidate : id.isCandidate = true) {n : Nat}
    (live : (id, n) ∈ a.jobs) (early : ∀ mark ∈ a.marks, mark.1 = id → mark.2 ≤ n) : a.marked id = false := by
  rw [Bool.eq_false_iff]
  intro marked
  obtain ⟨mark, hm, own⟩ := List.any_eq_true.mp marked
  have own : mark.1 = id := of_decide_eq_true own
  have later := h.later (id, n) live candidate mark hm own
  have before := early mark hm own
  omega

end Timely

section Runs

variable {lib : PyLib} {admits : Admits} {allow : JobId → (s : Stmt) → Answer s → List Write → Arq → Bool}
  {w w' : ArqWorld}

theorem arq_turn (step : Step ((arqSys lib admits).restrict allow) w w') : w.data.turn ≤ w'.data.turn := by
  have still : ∀ a : Arq, w.data.Rests a → w.data.turn = a.turn := by
    intro a rests
    obtain ⟨_, _, _, _, _, rfl⟩ := rests
    rfl
  rcases arq_step step with ⟨i, s, r, l, l', _, hx⟩ | ⟨a, rests, same | ⟨id, same⟩⟩
  · rcases arqExec_cases hx with ⟨id, job, t, rfl⟩ | ⟨ids, d, _, marked⟩ | ⟨d, done⟩
    · rcases arqExec_enqueue hx with ⟨_, _, refused⟩ | ⟨_, _, _, enqueued⟩
      · rw [refused]
      · rw [enqueued]
        exact Nat.le_succ _
    · rw [marked]
      exact Nat.le_succ _
    · rw [done]
  · rw [same, still a rests]
  · rw [same, still a rests]
    rfl

theorem arq_turns (run : Steps ((arqSys lib admits).restrict allow) w w') : w.data.turn ≤ w'.data.turn := by
  induction run with
  | refl => exact Nat.le_refl _
  | tail _ step ih => exact ih.trans (arq_turn step)

/-- An aborted job was enqueued after `v`, and the mark that aborted it is of this trace. -/
def Stale (tr : List ArqEvents) (v : ArqWorld) (c : Cancelled) : Prop :=
  v.data.turn ≤ c.enqueued ∧ ∃ e ∈ tr, ∃ ids, e.stmt = .zadd ids ∧ e.data.turn = c.marked

/-- Where a candidate's job is enqueued only while its id is unmarked, no job that was enqueued after an
abort is aborted by the marks of that call. A job whose id was not marked since its enqueue starts
`process_candidate`, which has committed its slot once it has returned. -/
theorem aborted_before {a₀ : Arq} (marks : a₀.marks = []) (jobs : a₀.jobs = []) (cancelled : a₀.cancelled = [])
    (reach : Reachable ((arqSys lib admits).restrict enqueuesUnmarked) a₀ w) :
    (∀ {i : JobId} {job : Task × Settings} {v₀ v : ArqWorld} {tr : List ArqEvents},
      Execution ((arqSys lib admits).restrict enqueuesUnmarked) i job v₀ tr v →
      Steps ((arqSys lib admits).restrict enqueuesUnmarked) v w →
      ∀ c ∈ w.data.cancelled, c.id.isCandidate = true → ¬ Stale tr v c) ∧
    ∀ (m b : Uuid) (c : Candidate) (cfg : Settings) (n : Nat),
      (JobId.processCandidate m c.canonicalUrlHash, n) ∈ w.data.jobs →
      (∀ mark ∈ w.data.marks, mark.1 = .processCandidate m c.canonicalUrlHash → mark.2 ≤ n) →
      (∀ p a, (arqSys lib admits).start (.processCandidate m c.canonicalUrlHash)
        (.job (.processCandidate m c (some b)), cfg) w.data = some (p, a) →
        p = processCandidate lib cfg m c (some b)) ∧
      ∀ {tr : List ArqEvents} {w' : ArqWorld} {l : List Write},
        Execution ((arqSys lib admits).restrict enqueuesUnmarked) (.processCandidate m c.canonicalUrlHash)
          (.job (.processCandidate m c (some b)), cfg) w tr w' →
        w'.proc (.processCandidate m c.canonicalUrlHash) = some (.ret (), l) →
        w'.data.data.db.hasCandidate b c.canonicalUrlHash = true := by
  have first : Timely a₀ := by
    constructor
    · simp [jobs]
    · simp [marks]
    · simp [jobs]
    · simp [cancelled]
  have timely : Timely w.data := first.reachable reach
  constructor
  · intro i job v₀ v tr run rest c hc candidate stale
    obtain ⟨after, e, he, ids, _, marked⟩ := stale
    obtain ⟨w₁, w₂, _, _, _, at_, _, _, step, last⟩ := run.event he
    have moved : w₁.data.turn ≤ v.data.turn :=
      (arq_turn step).trans (arq_turns last)
    have earlier := timely.cancelled c hc candidate
    rw [at_] at moved
    omega
  · intro m b c cfg n live early
    have unmarked := timely.unmarked rfl live early
    constructor
    · intro p a hs
      exact unmarked_starts unmarked hs
    · intro tr w' l run returned
      exact returned_slot run unmarked returned

end Runs

/-- A page that cannot be scraped. -/
def pagelessOracle : Oracle
  | .scrapeUrl _ _ _ => some (.ok none)
  | s => undatedOracle .none s

def pagelessCycle (k : Nat) : List ArqMove :=
  .start (.call k) (.job (.processMarket 1), sampleSettings) ::
    arqExecs sampleLib pagelessOracle (.call k) 15 ++ [.stop (.call k)]

def pagelessCandidate : Candidate := ⟨"a", "t", "", .none, "s", "a"⟩

def pagelessTask (b : Uuid) : Task := .job (.processCandidate 1 pagelessCandidate (some b))

def pagelessMoves : List ArqMove := arqExecs sampleLib pagelessOracle (.processCandidate 1 "a") 8

/-- The first candidate of a market is enqueued under no mark, and its slot committed. -/
theorem aborted_before_sample : ∃ w w' : ArqWorld,
    Reachable ((arqSys sampleLib anyTask).restrict enqueuesUnmarked) sampleArq w ∧
    (∃ job ∈ w.data.jobs, job.1 = .processCandidate 1 "a") ∧
    Steps ((arqSys sampleLib anyTask).restrict enqueuesUnmarked) w w' ∧
    w'.data.data.db.hasCandidate 2 "a" = true := by
  have run : (((arqSys sampleLib anyTask).restrict enqueuesUnmarked).run sampleArqWorld (pagelessCycle 1)).any
      (fun w => (((arqSys sampleLib anyTask).restrict enqueuesUnmarked).execute (.processCandidate 1 "a")
          (pagelessTask 2, sampleSettings) w pagelessMoves).any fun x =>
        arqReturned x.2 (.processCandidate 1 "a") && w.data.marks.isEmpty &&
          w.data.jobs.any fun job => decide (job.1 = .processCandidate 1 "a")) = true := by
    decide +kernel
  obtain ⟨w, found, hp⟩ := (Option.any_eq_true _ _).mp run
  obtain ⟨⟨tr, w'⟩, resolution, hp⟩ := (Option.any_eq_true _ _).mp hp
  simp only [Bool.and_eq_true, List.any_eq_true, decide_eq_true_eq, List.isEmpty_iff] at hp
  obtain ⟨⟨returned, unmarked⟩, ⟨id, n⟩, live, own⟩ := hp
  obtain rfl : id = .processCandidate 1 "a" := own
  obtain ⟨l, ended⟩ := returned_of returned
  have execution := Sys.execute_execution resolution
  have early : ∀ mark ∈ w.data.marks, mark.1 = .processCandidate 1 "a" → mark.2 ≤ n := by
    simp [unmarked]
  have reach : Reachable ((arqSys sampleLib anyTask).restrict enqueuesUnmarked) sampleArq w := Sys.run_steps found
  exact ⟨w, w', reach, ⟨_, live, rfl⟩, execution.steps,
    ((aborted_before rfl rfl rfl reach).2 1 2 pagelessCandidate sampleSettings n live early).2 execution ended⟩

/-- Once the kept result has expired, the market is active again and its cycle finds the page again. -/
def rediscovery : List ArqMove :=
  [.stop (.call 2), .env (.pass (keepResult + 1)),
    .start (.call 3) (.updateMarket "m" ⟨none, none, none, none, some .active⟩, sampleSettings)] ++
  arqExecs sampleLib pagelessOracle (.call 3) 6 ++ [.stop (.call 3)] ++ pagelessCycle 4 ++
  [.start (.processCandidate 1 "a") (pagelessTask 3, sampleSettings)]

def marksAt (e : ArqEvents) (turn : Nat) : Bool :=
  match e.stmt with
  | .zadd _ => e.data.turn == turn
  | _ => false

theorem marked_of {e : ArqEvents} {turn : Nat} (h : marksAt e turn = true) :
    ∃ ids, e.stmt = .zadd ids ∧ e.data.turn = turn := by
  unfold marksAt at h
  split at h
  next ids same => exact ⟨ids, same, beq_iff_eq.mp h⟩
  next => simp at h

/-- The unsubscribe marks a candidate that has ended long before, and the mark drops its next job,
enqueued after the reactivation: the slot of the new batch stays open. -/
theorem stale_mark : ∃ (v₀ v w : ArqWorld) (tr : List ArqEvents) (l : List Write) (c : Cancelled),
    Reachable (arqSys sampleLib anyTask) sampleArq v₀ ∧
    Execution (arqSys sampleLib anyTask) (.call 2) (.unsubscribe "m", sampleSettings) v₀ tr v ∧
    v.proc (.call 2) = some (.ret (), l) ∧ Steps (arqSys sampleLib anyTask) v w ∧
    c ∈ w.data.cancelled ∧ c.id.isCandidate = true ∧ Stale tr v c ∧
    w.data.data.db.isActive 1 = true ∧ w.data.data.db.hasCandidate 3 "a" = false ∧
    ∃ batch ∈ w.data.data.db.batches, batch.id = 3 ∧ batch.status = .opened := by
  have run : ((arqSys sampleLib anyTask).run sampleArqWorld (pagelessCycle 1 ++
      .start (.processCandidate 1 "a") (pagelessTask 2, sampleSettings) :: pagelessMoves ++
        [.stop (.processCandidate 1 "a")])).any (fun v₀ =>
      ((arqSys sampleLib anyTask).execute (.call 2) (.unsubscribe "m", sampleSettings) v₀
          (arqExecs sampleLib pagelessOracle (.call 2) 6)).any fun x =>
        ((arqSys sampleLib anyTask).run x.2 rediscovery).any fun w =>
          arqReturned x.2 (.call 2) && w.data.data.db.isActive 1 && !w.data.data.db.hasCandidate 3 "a" &&
            (w.data.data.db.batches.any fun batch => decide (batch.id = 3) && batch.status == .opened) &&
            w.data.cancelled.any fun c => c.id.isCandidate && decide (x.2.data.turn ≤ c.enqueued) &&
              x.1.any fun e => marksAt e c.marked) = true := by
    decide +kernel
  obtain ⟨v₀, found, hp⟩ := (Option.any_eq_true _ _).mp run
  obtain ⟨⟨tr, v⟩, unsubscribed, hp⟩ := (Option.any_eq_true _ _).mp hp
  obtain ⟨w, later, hp⟩ := (Option.any_eq_true _ _).mp hp
  simp only [Bool.and_eq_true, List.any_eq_true, decide_eq_true_eq, beq_iff_eq, Bool.not_eq_true'] at hp
  obtain ⟨⟨⟨⟨returned, active⟩, slotless⟩, batch, hb, third, opened⟩, c, hc, ⟨candidate, after⟩, e, he, marks⟩ := hp
  obtain ⟨l, ended⟩ := returned_of returned
  obtain ⟨ids, signals, at_⟩ := marked_of marks
  exact ⟨v₀, v, w, tr, l, c, Sys.run_steps found, Sys.execute_execution unsubscribed, ended, Sys.run_steps later,
    hc, candidate, ⟨after, e, he, ids, signals, at_⟩, active, slotless, batch, hb, third, opened⟩

end NewsNotifier
