import NewsNotifier.BatchDispatch
import NewsNotifier.CommittedRows
import NewsNotifier.BatchClosing
import NewsNotifier.CycleChronology

namespace NewsNotifier

open Interleaving

def Task.resolves : Task → Bool
  | .resolveBatchCandidate _ _ _ _ _ => true
  | _ => false

/-- The candidates' jobs run as they were enqueued, and only jobs and cycles resolve a slot. -/
def fanoutTask : Admits := fun i task cfg d => cycleTask i task cfg d && !task.resolves

/-- This answer opens no batch `b`. -/
def opensOther (b : Uuid) (s : Stmt) (r : Answer s) : Prop :=
  match s, r with
  | .insertBatch _ _ _, new => new.id ≠ b
  | _, _ => True

def Write.keepsSlots (b : Uuid) (hashes : List String) : Write → Prop
  | .insertCandidate row => row.batchId = b → row.canonicalUrlHash ∈ hashes
  | _ => True

/-- In batch `b` only the slots of these hashes are filled or given away. -/
def Stmt.keepsSlots (b : Uuid) (hashes : List String) : Stmt → Prop
  | .insertCandidate row => row.batchId = b → row.canonicalUrlHash ∈ hashes
  | .enqueueJob _ (.processCandidate _ c b') _ => b' = some b → c.canonicalUrlHash ∈ hashes
  | .assign w => w.keepsSlots b hashes
  | _ => True

section Programs

variable {lib : PyLib} {cfg : Settings} {b : Uuid} {hashes : List String}

theorem Stmt.reading.keepsSlots {m : Uuid} {s : Stmt} (h : s.reading m) : s.keepsSlots b hashes := by
  cases s <;> first | exact True.intro | exact h.elim

theorem Stmt.batching.keepsSlots {m : Uuid} {s : Stmt} (h : s.batching m) : s.keepsSlots b hashes := by
  unfold Stmt.batching at h
  split at h <;> first | exact True.intro | exact h.elim

theorem Stmt.delivering.keepsSlots {s : Stmt} (h : s.delivering) : s.keepsSlots b hashes := by
  unfold Stmt.delivering at h
  split at h <;> first | exact True.intro | exact h.elim

theorem Stmt.dispatches.keepsSlots {m : Uuid} {selected : List Candidate} {s : Stmt}
    (h : s.dispatches m b selected) : s.keepsSlots b (selected.map (·.canonicalUrlHash)) := by
  cases s with
  | enqueueJob id job t =>
    cases job with
    | processCandidate m' c b' => exact fun _ => List.mem_map_of_mem h.1
    | _ => exact True.intro
  | insertCandidate row =>
    obtain ⟨c, hc, rfl⟩ := h
    exact fun _ => List.mem_map_of_mem hc
  | assign w => cases w <;> first | exact True.intro | exact h.elim
  | _ => exact True.intro

theorem keepsSlots_serves : Serves (Stmt.keepsSlots b hashes) :=
  ⟨fun _ _ h => h.keepsSlots, True.intro, fun _ _ _ => True.intro, fun _ => True.intro, fun _ => True.intro⟩

theorem dispatchCycle_keepsSlots (m : Uuid) (next : Time) {batchId : Option Uuid} (other : batchId ≠ some b)
    (selected : List Candidate) :
    (dispatchCycle m next batchId selected).Along (opensOther b) (Stmt.keepsSlots b hashes) := by
  refine (dispatchCycle_does (F := fun _ => True) (fun _ h => h.keepsSlots) (fun _ => True.intro) True.intro next
    (fun _ => True.intro) batchId selected (fun c _ own => absurd own other) ?_).along
  rintro c _ b' _ _ rfl rfl
  exact absurd rfl other

theorem processMarket_keepsSlots (m : Uuid) :
    (processMarket lib cfg m).Along (opensOther b) (Stmt.keepsSlots b hashes) := by
  have assigned : ∀ (market : Market) (change : MarketChange), (assignMarket market change).Along (opensOther b)
      (Stmt.keepsSlots b hashes) :=
    fun market _ => (assignMarket_does (F := fun _ => True) market True.intro).along
  refine ⟨True.intro, fun found _ => ?_⟩
  cases found with
  | none => exact True.intro
  | some market =>
    simp only [Prog.ret_bind]
    split
    next => exact True.intro
    next =>
      have selects : (selectCandidates lib cfg market).Along (opensOther b) (Stmt.keepsSlots b hashes) :=
        (selectCandidates_does (F := fun _ => True) market (fun _ => True.intro) fun _ h => h.keepsSlots).along
      refine Prog.Obeys.bind (selects.mono (fun _ selected _ => ?_) fun _ _ h => h)
      refine ⟨True.intro, fun lastPolledAt _ => ⟨True.intro, fun u _ => ?_⟩⟩
      simp only [Prog.ret_bind]
      refine Prog.Obeys.bind ((assigned market _).mono (fun _ _ _ => ?_) fun _ _ h => h)
      refine Prog.Obeys.bind ((assigned market _).mono (fun _ _ _ => ?_) fun _ _ h => h)
      split
      next => exact ⟨True.intro, fun _ _ => dispatchCycle_keepsSlots _ _ (by simp) selected⟩
      next =>
        refine ⟨True.intro, fun new other => ⟨True.intro, fun _ _ => dispatchCycle_keepsSlots _ _ ?_ selected⟩⟩
        exact fun e => other (Option.some.inj e)

theorem taskProgram_keepsSlots {task : Task} (alone : task.resolves = false)
    (enqueued : ∀ m c, task = .job (.processCandidate m c (some b)) → c.canonicalUrlHash ∈ hashes) :
    (taskProgram lib cfg task).Along (opensOther b) (Stmt.keepsSlots b hashes) := by
  by_cases cycle : ∃ m, task = .job (.processMarket m)
  · obtain ⟨m, rfl⟩ := cycle
    exact processMarket_keepsSlots m
  · refine (taskProgram_does keepsSlots_serves (fun _ _ h => h.keepsSlots) (fun _ _ _ => True.intro)
      (fun _ _ => True.intro) (fun _ _ => True.intro) ?_ ?_).along
    · rintro m b' hash outcome item rfl
      simp [Task.resolves] at alone
    · rintro j rfl
      cases j with
      | processMarket m => exact absurd ⟨m, rfl⟩ cycle
      | processCandidate m c batchId =>
        refine processCandidate_does m (fun _ => True.intro) (fun _ _ h => h.keepsSlots)
          (fun _ _ h => h.keepsSlots) ?_ (fun _ => True.intro) fun _ _ _ => True.intro
        rintro b' outcome item rfl rfl
        exact enqueued m c rfl
      | deliverBatch logId =>
        exact deliverBatch_does (fun _ h => h.keepsSlots) (fun _ => True.intro) True.intro
          (fun _ _ _ => True.intro) logId

end Programs

theorem Write.keepsSlots_of {s : Stmt} {x : Write} {b : Uuid} {hashes : List String} (writes : s.Writes x)
    (keeps : s.keepsSlots b hashes) : x.keepsSlots b hashes := by
  cases writes with
  | candidate row => exact keeps
  | assigned w => exact keeps
  | _ => exact True.intro

/-- The slots of batch `b` that are recorded or given to jobs are among these hashes. -/
structure Data.Slotted (d : Data) (b : Uuid) (hashes : List String) : Prop where
  rows : ∀ k, (b, k) ∈ d.db.tables.candidates → k ∈ hashes
  jobs : ∀ q ∈ d.accepted, ∀ m c, q.job = .processCandidate m c (some b) → c.canonicalUrlHash ∈ hashes

section Steps

variable {lib : PyLib} {i : JobId} {b : Uuid} {hashes : List String} {d d' : Data} {l l' : List Write}

theorem Data.Slotted.after (h : d.Slotted b hashes) (staged : ∀ x ∈ l, x.keepsSlots b hashes) :
    ∀ k, (b, k) ∈ (d.db.after l).tables.candidates → k ∈ hashes := by
  intro k hk
  rw [after_candidates] at hk
  rcases List.mem_append.mp hk with old | new
  · exact h.rows k old
  · obtain ⟨x, hx, e⟩ := List.mem_filterMap.mp new
    cases x with
    | insertCandidate row =>
      obtain ⟨rfl, rfl⟩ := Prod.mk.inj (Option.some.inj e)
      exact staged _ hx rfl
    | _ => simp [Write.candidate] at e

theorem exec_slotted {s : Stmt} {r : Answer s} (hx : exec lib i s r l d = some (l', d'))
    (keeps : s.keepsSlots b hashes) (staged : ∀ x ∈ l, x.keepsSlots b hashes) (h : d.Slotted b hashes) :
    d'.Slotted b hashes ∧ ∀ x ∈ l', x.keepsSlots b hashes := by
  have more : ∀ x, x.keepsSlots b hashes → ∀ y ∈ l ++ [x], y.keepsSlots b hashes := by
    intro x hx y hy
    rcases List.mem_append.mp hy with hy | hy
    · exact staged y hy
    · exact List.mem_singleton.mp hy ▸ hx
  cases exec_outcome hx with
  | staged x writes => exact ⟨h, more x (Write.keepsSlots_of writes keeps)⟩
  | drewStaged u x fresh writes => exact ⟨⟨h.rows, h.jobs⟩, more x (Write.keepsSlots_of writes keeps)⟩
  | drewBatch u row w fresh writes id => exact ⟨⟨h.rows, h.jobs⟩, more _ True.intro⟩
  | committed => exact ⟨⟨h.after staged, h.jobs⟩, by simp⟩
  | marketInserted row => exact ⟨⟨h.after staged, h.jobs⟩, by simp⟩
  | enqueued q e free =>
    subst e
    refine ⟨⟨h.rows, fun q' hq' m c job => ?_⟩, staged⟩
    rcases List.mem_cons.mp hq' with rfl | hq'
    · have keeps : Stmt.keepsSlots b hashes (.enqueueJob q'.id q'.job q'.deferUntil) := keeps
      rw [job] at keeps
      exact keeps rfl
    · exact h.jobs q' hq' m c job
  | _ => exact ⟨⟨h.rows, h.jobs⟩, staged⟩

end Steps

def Data.hasDrawn (d : Data) (u : Uuid) : Prop := u ∈ d.drawn.map (·.1)

/-- The slots of batch `b` are among these hashes in the data and in what the processes may do yet,
save for what one of them may ask. -/
structure Slotted (b : Uuid) (hashes : List String) (except : Option JobId) (w : NewsWorld) : Prop where
  data : w.data.Slotted b hashes
  staged : ∀ i p l, w.proc i = some (p, l) → ∀ x ∈ l, x.keepsSlots b hashes
  asked : ∀ i p l, some i ≠ except → w.proc i = some (p, l) →
    p.Along (opensOther b) (Stmt.keepsSlots b hashes)

section Runs

variable {lib : PyLib} {b : Uuid} {hashes : List String} {except : Option JobId} {w w' : NewsWorld}

theorem exec_hasDrawn {i : JobId} {s : Stmt} {r : Answer s} {l l' : List Write} {d d' : Data}
    (hx : exec lib i s r l d = some (l', d')) (h : d.hasDrawn b) : d'.hasDrawn b := by
  cases exec_outcome hx with
  | drew | drewStaged | drewBatch => exact List.mem_cons_of_mem _ h
  | _ => exact h

/-- A batch is opened under an id that was not drawn before. -/
theorem exec_opensOther {i : JobId} {s : Stmt} {r : Answer s} {l l' : List Write} {d d' : Data}
    (hx : exec lib i s r l d = some (l', d')) (undrawn : d'.hasDrawn b → d.hasDrawn b) : opensOther b s r := by
  unfold opensOther
  split
  next m n w new =>
    simp only [exec] at hx
    split at hx
    next fresh =>
      obtain ⟨rfl, rfl⟩ := Prod.mk.inj (Option.some.inj hx)
      rintro rfl
      exact not_drawn fresh (undrawn List.mem_cons_self)
    next => simp at hx
  next => exact True.intro

theorem step_hasDrawn {admits : Admits} (step : Step (newsSys lib admits) w w') (h : w.data.hasDrawn b) :
    w'.data.hasDrawn b := by
  rcases newsSys_step step.restrict_true with ⟨i, s, r, l, l', _, hx⟩ | ⟨_, _, _, _, idle⟩
  · exact exec_hasDrawn hx h
  · rw [idle]
    exact h

theorem steps_hasDrawn {admits : Admits} (run : Steps (newsSys lib admits) w w') (h : w.data.hasDrawn b) :
    w'.data.hasDrawn b := by
  induction run with
  | refl => exact h
  | tail _ step ih => exact step_hasDrawn step ih

theorem Slotted.set (h : Slotted b hashes except w) {i : JobId} {q : Option (Program Unit × List Write)} {d' : Data}
    (data : d'.Slotted b hashes) (staged : ∀ p l, q = some (p, l) → ∀ x ∈ l, x.keepsSlots b hashes)
    (asked : some i ≠ except → ∀ p l, q = some (p, l) → p.Along (opensOther b) (Stmt.keepsSlots b hashes)) :
    Slotted b hashes except (w.set i q d') := by
  refine ⟨data, fun j p l hj => ?_, fun j p l ne hj => ?_⟩
  · by_cases same : j = i
    · subst same
      rw [World.set_self] at hj
      exact staged p l hj
    · rw [World.set_other _ same] at hj
      exact h.staged j p l hj
  · by_cases same : j = i
    · subst same
      rw [World.set_self] at hj
      exact asked ne p l hj
    · rw [World.set_other _ same] at hj
      exact h.asked j p l ne hj

theorem Slotted.statement (h : Slotted b hashes except w) {i : JobId} {s : Stmt} {next : Answer s → Program Unit}
    {r : Answer s} {l l' : List Write} {d' : Data} (hp : w.proc i = some (.stmt s next, l))
    (hx : exec lib i s r l w.data = some (l', d')) (keeps : s.keepsSlots b hashes)
    (rest : some i ≠ except → (next r).Along (opensOther b) (Stmt.keepsSlots b hashes)) :
    Slotted b hashes except (w.set i (some (next r, l')) d') := by
  obtain ⟨data, staged⟩ := exec_slotted hx keeps (h.staged i _ l hp) h.data
  refine h.set data ?_ ?_
  · rintro p l₁ e
    obtain ⟨rfl, rfl⟩ := Prod.mk.inj (Option.some.inj e)
    exact staged
  · rintro ne p l₁ e
    obtain ⟨rfl, rfl⟩ := Prod.mk.inj (Option.some.inj e)
    exact rest ne

/-- A step of the others, which draws no `b`, keeps the slots. -/
theorem Slotted.step (h : Slotted b hashes except w) (step : Step (newsSys lib fanoutTask) w w')
    (undrawn : w'.data.hasDrawn b → w.data.hasDrawn b)
    (apart : ∀ i, except = some i → w'.proc i = w.proc i) : Slotted b hashes except w' := by
  cases step with
  | @exec i s next l l' d' r hp hx =>
    have hx : exec lib i s r l w.data = some (l', d') := hx
    have other : some i ≠ except := by
      rintro rfl
      have same := apart i rfl
      rw [World.set_self, hp] at same
      exact Prog.next_ne r (Prod.mk.inj (Option.some.inj same)).1
    have along := h.asked i _ l other hp
    exact h.statement hp hx along.1 fun _ => along.2 r (exec_opensOther hx undrawn)
  | @start i job p d' hp hs =>
    obtain ⟨task, cfg⟩ := job
    obtain ⟨_, _, admitted, rfl, rfl⟩ := @newsSys_start lib fanoutTask _ _ _ _ _ _ hs
    simp only [fanoutTask, cycleTask, Bool.and_eq_true, Bool.not_eq_true'] at admitted
    refine h.set ⟨h.data.rows, h.data.jobs⟩ ?_ ?_
    · rintro p l e
      obtain ⟨_, rfl⟩ := Prod.mk.inj (Option.some.inj e)
      exact fun x hx => absurd hx List.not_mem_nil
    · rintro _ p l e
      obtain ⟨rfl, _⟩ := Prod.mk.inj (Option.some.inj e)
      refine taskProgram_keepsSlots admitted.2 ?_
      rintro m c rfl
      obtain ⟨q, hq, job⟩ := List.any_eq_true.mp admitted.1.2
      exact h.data.jobs q hq m c (of_decide_eq_true job)
  | @stop i hp => exact h.set ⟨h.data.rows, h.data.jobs⟩ (by simp) (by simp)
  | @env t d' he =>
    obtain ⟨_, rfl⟩ := @newsSys_env lib fanoutTask _ _ _ he
    exact ⟨⟨h.data.rows, h.data.jobs⟩, h.staged, h.asked⟩

theorem Slotted.steps (h : Slotted b hashes none w) (run : Steps (newsSys lib fanoutTask) w w')
    (undrawn : w'.data.hasDrawn b → w.data.hasDrawn b) : Slotted b hashes none w' := by
  induction run with
  | refl => exact h
  | tail first last ih =>
    have earlier := ih fun drawn => undrawn (step_hasDrawn last drawn)
    exact earlier.step last (fun drawn => steps_hasDrawn first (undrawn drawn)) (by simp)

/-- Before an id is drawn, nobody has a slot under it. -/
theorem slotted_undrawn {d₀ : Data} (h₀ : d₀.Initial) (reach : Reachable (newsSys lib fanoutTask) d₀ w)
    (undrawn : ¬w.data.hasDrawn b) : Slotted b hashes except w := by
  have start : Slotted b hashes none (⟨d₀, fun _ => none⟩ : NewsWorld) := by
    refine ⟨⟨?_, ?_⟩, by simp, by simp⟩
    · simp [Database.tables, h₀.candidates]
    · simp [h₀.accepted]
  have reached := start.steps reach fun drawn => absurd drawn undrawn
  exact ⟨reached.data, reached.staged, fun i p l _ => reached.asked i p l (by simp)⟩

/-- A process that opens batch `b` and keeps to these slots is the only one to give them away. -/
theorem execution_slotted {d₀ : Data} (h₀ : d₀.Initial) (reach : Reachable (newsSys lib fanoutTask) d₀ w)
    {i : JobId} {job : Task × Settings} {tr before after : List NewsEvent}
    (run : Execution (newsSys lib fanoutTask) i job w tr w') {m : Uuid} {n : Nat} {watermark : Option Time}
    {new : Inserted} {l : List Write} {d : Data}
    (split : tr = before ++ ⟨.insertBatch m n watermark, new, l, d⟩ :: after)
    (asked : ∀ e ∈ tr, e.stmt.keepsSlots new.id hashes) :
    w'.data.hasDrawn new.id ∧ Slotted new.id hashes (some i) w' := by
  induction run generalizing after with
  | start => simp at split
  | @exec tr v s next l₁ l₂ d' run r hp hx ih =>
    have hx : exec lib i s r l₁ v.data = some (l₂, d') := hx
    have keeps : s.keepsSlots new.id hashes :=
      asked ⟨s, r, l₁, v.data⟩ (List.mem_append_right _ List.mem_cons_self)
    rcases List.eq_nil_or_concat after with rfl | ⟨after, last, rfl⟩
    · obtain ⟨rfl, last⟩ := List.append_inj' split rfl
      obtain ⟨rfl, answer, rfl, rfl⟩ := Event.mk.inj (List.cons.inj last).1
      obtain rfl := eq_of_heq answer
      have drawing := hx
      simp only [exec] at drawing
      split at drawing
      next fresh =>
        obtain ⟨rfl, rfl⟩ := Prod.mk.inj (Option.some.inj drawing)
        have before : Slotted r.id hashes (some i) v :=
          slotted_undrawn h₀ (reach.trans run.steps) (not_drawn fresh)
        exact ⟨List.mem_cons_self, before.statement hp hx keeps fun ne => absurd rfl ne⟩
      next => simp at drawing
    · rw [List.concat_eq_append, ← List.cons_append, ← List.append_assoc] at split
      obtain ⟨earlier, _⟩ := List.append_inj' split rfl
      obtain ⟨drawn, before⟩ := ih earlier fun e he => asked e (List.mem_append_left _ he)
      exact ⟨exec_hasDrawn hx drawn, before.statement hp hx keeps fun ne => absurd rfl ne⟩
  | beside run step same ih =>
    obtain ⟨drawn, before⟩ := ih split asked
    refine ⟨step_hasDrawn step drawn, before.step step (fun _ => drawn) ?_⟩
    rintro j ⟨⟩
    exact same

end Runs

end NewsNotifier
