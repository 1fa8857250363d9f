import NewsNotifier.NewsRuns
import NewsNotifier.ExecutionTraces

namespace NewsNotifier

open Interleaving

/-- `keep_result`, in microseconds. -/
def keepResult : Int := 3600 * 1000000

/-- A job that was aborted, with the turns of its enqueue and of the `zadd` that marked it. -/
structure Cancelled where
  id : JobId
  enqueued : Nat
  marked : Nat
  deriving DecidableEq

/-- The data and what arq holds beside its queue: kept results until they expire, `abort_jobs_ss` and
the live jobs, with the turns in which their ids came there, and the aborted jobs. -/
structure Arq where
  data : Data
  results : List (JobId × Time)
  marks : List (JobId × Nat)
  jobs : List (JobId × Nat)
  cancelled : List Cancelled
  turn : Nat

namespace Arq

def kept (a : Arq) (id : JobId) : Bool := a.results.any fun e => e.1 = id && a.data.clock < e.2

def marked (a : Arq) (id : JobId) : Bool := a.marks.any (·.1 = id)

/-- A job is dropped as it starts while its id is marked; requests and crons are under no mark. -/
def drops (a : Arq) (id : JobId) : Task → Bool
  | .job _ => a.marked id
  | _ => false

/-- The job of this id is aborted, and the id removed. -/
def cancel (a : Arq) (id : JobId) : Arq :=
  { a with
    marks := a.marks.filter (·.1 ≠ id)
    cancelled := a.cancelled ++ (a.jobs.filter (·.1 = id)).flatMap fun job =>
      (a.marks.filter (·.1 = id)).map fun mark => ⟨id, job.2, mark.2⟩ }

def enqueue (a : Arq) (id : JobId) : Arq :=
  { a with jobs := (id, a.turn) :: a.jobs, turn := a.turn + 1 }

def mark (a : Arq) (ids : List JobId) : Arq :=
  { a with marks := ids.map (fun id => (id, a.turn)) ++ a.marks, turn := a.turn + 1 }

end Arq

/-- The statements over arq: a kept result refuses an enqueue as a live job does. -/
def arqExec (lib : PyLib) (i : JobId) (s : Stmt) (r : Answer s) (l : List Write) (a : Arq) :
    Option (List Write × Arq) :=
  match s, r with
  | .enqueueJob id job deferUntil, accepted =>
    if a.kept id then
      if accepted then none else some (l, a)
    else
      (exec lib i (.enqueueJob id job deferUntil) accepted l a.data).map fun x =>
        (x.1, if accepted then { a with data := x.2 }.enqueue id else { a with data := x.2 })
  | .zadd ids, answer =>
    (exec lib i (.zadd ids) answer l a.data).map fun x => (x.1, { a with data := x.2 }.mark ids)
  | s, r => (exec lib i s r l a.data).map fun x => (x.1, { a with data := x.2 })

/-- The clock advances, a result is lost, as that of a killed job, or a worker aborts a running job. -/
inductive ArqEvent where
  | pass (t : Time)
  | lose (id : JobId)
  | abort (id : JobId)

/-- The system over arq. A job whose id is in `abort_jobs_ss` is dropped as it starts; a job that has
ended leaves its result, whether it returned or raised. -/
def arqSys (lib : PyLib) (admits : Admits) :
    Sys JobId Stmt Answer Raised (List Write) Arq (Task × Settings) ArqEvent where
  idle := []
  exec := arqExec lib
  start i job a :=
    ((newsSys lib admits).start i job a.data).map fun x =>
      if a.drops i job.1 then (.ret (), { a with data := x.2 }.cancel i) else (x.1, { a with data := x.2 })
  stop i a :=
    { a with
      data := (newsSys lib admits).stop i a.data
      results := (i, a.data.clock + keepResult) :: a.results
      jobs := a.jobs.filter (·.1 ≠ i) }
  env e a :=
    match e with
    | .pass t => ((newsSys lib admits).env t a.data).map fun d => { a with data := d }
    | .lose id => some { a with results := a.results.filter (·.1 ≠ id) }
    | .abort id =>
      if a.marked id && a.data.redis.running.any (·.id = id) then some (a.cancel id) else none

abbrev ArqWorld := World JobId Stmt Answer Raised (List Write) Arq

abbrev ArqEvents := Event Stmt Answer (List Write) Arq

abbrev ArqMove := Move JobId Stmt Answer (List Write) Arq (Task × Settings) ArqEvent

/-- The sample's answers, where a kept result refuses an enqueue. -/
def arqReply (lib : PyLib) (oracle : Oracle) (l : List Write) (a : Arq) : (s : Stmt) → Option (Answer s)
  | .enqueueJob id _ _ => some (!a.kept id && !a.data.redis.live id)
  | s => reply lib oracle l a.data s

def arqExecs (lib : PyLib) (oracle : Oracle) (i : JobId) (n : Nat) : List ArqMove :=
  List.replicate n (.exec i (arqReply lib oracle))

def sampleArq : Arq := ⟨sampleData, [], [], [], [], 0⟩

def sampleArqWorld : ArqWorld := ⟨sampleArq, fun _ => none⟩

/-- A statement enqueues, marks, or acts on the data alone. -/
theorem arqExec_cases {lib : PyLib} {i : JobId} {s : Stmt} {r : Answer s} {l l' : List Write} {a a' : Arq}
    (hx : arqExec lib i s r l a = some (l', a')) : (∃ id job t, s = .enqueueJob id job t) ∨
      (∃ ids d, s = .zadd ids ∧ a' = { a with data := d }.mark ids) ∨ ∃ d, a' = { a with data := d } := by
  unfold arqExec at hx
  split at hx
  next id job t accepted => exact .inl ⟨id, job, t, rfl⟩
  next ids answer =>
    obtain ⟨x, _, same⟩ := Option.map_eq_some_iff.mp hx
    exact .inr (.inl ⟨ids, x.2, rfl, (Prod.mk.inj same).2.symm⟩)
  next =>
    obtain ⟨x, _, same⟩ := Option.map_eq_some_iff.mp hx
    exact .inr (.inr ⟨x.2, (Prod.mk.inj same).2.symm⟩)

/-- A statement does to the data what it does without arq, but for an enqueue that is refused. -/
theorem arqExec_data {lib : PyLib} {i : JobId} {s : Stmt} {r : Answer s} {l l' : List Write} {a a' : Arq}
    (hx : arqExec lib i s r l a = some (l', a')) :
    exec lib i s r l a.data = some (l', a'.data) ∨ (∃ id job t, s = .enqueueJob id job t) ∧ l' = l ∧ a' = a := by
  unfold arqExec at hx
  split at hx
  next id job t accepted =>
    by_cases kept : a.kept id = true
    · rw [if_pos kept] at hx
      by_cases accepts : accepted = true
      · rw [if_pos accepts] at hx
        simp at hx
      · rw [if_neg accepts] at hx
        obtain ⟨same, same'⟩ := Prod.mk.inj (Option.some.inj hx)
        exact .inr ⟨⟨id, job, t, rfl⟩, same.symm, same'.symm⟩
    · rw [if_neg kept] at hx
      obtain ⟨x, done, same⟩ := Option.map_eq_some_iff.mp hx
      obtain ⟨rfl, rfl⟩ := Prod.mk.inj same
      refine .inl (done.trans ?_)
      cases accepted <;> rfl
  next ids answer =>
    obtain ⟨x, done, same⟩ := Option.map_eq_some_iff.mp hx
    obtain ⟨rfl, rfl⟩ := Prod.mk.inj same
    exact .inl done
  next =>
    obtain ⟨x, done, same⟩ := Option.map_eq_some_iff.mp hx
    obtain ⟨rfl, rfl⟩ := Prod.mk.inj same
    exact .inl done

/-- An enqueue is refused with a kept result or a live job, and accepted otherwise. -/
theorem arqExec_enqueue {lib : PyLib} {i id : JobId} {job : Job} {deferUntil : Option Time} {accepted : Bool}
    {l l' : List Write} {a a' : Arq}
    (hx : arqExec lib i (.enqueueJob id job deferUntil) accepted l a = some (l', a')) :
    (accepted = false ∧ (a.kept id = true ∨ a.data.redis.live id = true) ∧ a' = a) ∨
    (accepted = true ∧ a.kept id = false ∧ a.data.redis.live id = false ∧
      a' = { a with data := a.data.enqueue i ⟨id, job, deferUntil⟩ }.enqueue id) := by
  simp only [arqExec, exec] at hx
  cases kept : a.kept id with
  | true =>
    rw [kept, if_pos rfl] at hx
    cases accepted with
    | true => simp at hx
    | false =>
      obtain ⟨_, same⟩ := Prod.mk.inj (Option.some.inj hx)
      exact .inl ⟨rfl, .inl rfl, same.symm⟩
  | false =>
    rw [kept, if_neg (by simp)] at hx
    cases live : a.data.redis.live id with
    | true =>
      rw [live, if_pos rfl] at hx
      obtain ⟨⟨l₁, d₁⟩, answer, same⟩ := Option.map_eq_some_iff.mp hx
      obtain ⟨ok, rfl, rfl⟩ := answered_eq answer
      have refused : accepted = false := of_decide_eq_true ok
      subst refused
      exact .inl ⟨rfl, .inr rfl, (Prod.mk.inj same).2.symm⟩
    | false =>
      rw [live, if_neg (by simp)] at hx
      cases accepted with
      | true => exact .inr ⟨rfl, rfl, rfl, (Prod.mk.inj (Option.some.inj hx)).2.symm⟩
      | false => simp at hx

/-- After an enqueue the job is live if and only if it was, or no result of it is kept. -/
theorem enqueue_live {lib : PyLib} {i id : JobId} {job : Job} {deferUntil : Option Time} {accepted : Bool}
    {l l' : List Write} {a a' : Arq}
    (hx : arqExec lib i (.enqueueJob id job deferUntil) accepted l a = some (l', a')) :
    a'.data.redis.live id = true ↔ a.data.redis.live id = true ∨ a.kept id = false := by
  rcases arqExec_enqueue hx with ⟨_, refuses, rfl⟩ | ⟨_, expired, _, rfl⟩
  · constructor
    · exact fun live => .inl live
    · rintro (live | expired)
      · exact live
      · rcases refuses with kept | live
        · simp [kept] at expired
        · exact live
  · simp [expired, Arq.enqueue, Data.enqueue, Redis.live]

/-- The rows and the marks are left, and the live jobs or some of them. -/
def Arq.Rests (a a' : Arq) : Prop :=
  ∃ d results jobs, d.db = a.data.db ∧ jobs.Sublist a.jobs ∧
    a' = { a with data := d, results := results, jobs := jobs }

/-- A step executes a statement, or rests, and may then abort a job. -/
theorem arq_step {lib : PyLib} {admits : Admits} {allow : JobId → (s : Stmt) → Answer s → List Write → Arq → Bool}
    {w w' : ArqWorld} (step : Step ((arqSys lib admits).restrict allow) w w') :
    (∃ i s r l l', allow i s r l w.data = true ∧ arqExec lib i s r l w.data = some (l', w'.data)) ∨
    ∃ a, w.data.Rests a ∧ (w'.data = a ∨ ∃ id, w'.data = a.cancel id) := by
  have rests : ∀ d : Data, d.db = w.data.data.db → w.data.Rests { w.data with data := d } :=
    fun d same => ⟨d, _, _, same, .refl _, rfl⟩
  cases step with
  | @exec i s next l l' a' r hp hx =>
    obtain ⟨allowed, executed⟩ := Sys.exec_of_restrict hx
    exact .inl ⟨i, s, r, l, l', allowed, executed⟩
  | @start i job p a' hp hs =>
    obtain ⟨⟨p', d⟩, started, same⟩ := Option.map_eq_some_iff.mp hs
    obtain ⟨_, _, _, _, begun⟩ := newsSys_start started
    have rows : d.db = w.data.data.db := by rw [begun]; rfl
    refine .inr ⟨_, rests d rows, ?_⟩
    split at same
    next => exact .inr ⟨i, (Prod.mk.inj same).2.symm⟩
    next => exact .inl (Prod.mk.inj same).2.symm
  | @stop i hp =>
    exact .inr ⟨_, ⟨(newsSys lib admits).stop i w.data.data, _, _, rfl, List.filter_sublist, rfl⟩, .inl rfl⟩
  | @env e a' he =>
    cases e with
    | pass t =>
      obtain ⟨d, passed, same⟩ := Option.map_eq_some_iff.mp he
      obtain ⟨_, later⟩ := newsSys_env passed
      have rows : d.db = w.data.data.db := by rw [later]
      exact .inr ⟨_, rests d rows, .inl same.symm⟩
    | lose id => exact .inr ⟨_, ⟨w.data.data, _, _, rfl, .refl _, rfl⟩, .inl (Option.some.inj he).symm⟩
    | abort id =>
      simp only [arqSys, Sys.restrict] at he
      split at he
      next => exact .inr ⟨_, rests w.data.data rfl, .inr ⟨id, (Option.some.inj he).symm⟩⟩
      next => simp at he

end NewsNotifier
