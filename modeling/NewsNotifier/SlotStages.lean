import NewsNotifier.ArqQueue
import NewsNotifier.ResolvedSlots

namespace NewsNotifier

open Interleaving

/-- How far a program has come with a slot. -/
inductive SlotStage where
  | waiting
  | inserted
  | committed

def SlotStage.next (slot : Uuid × String) (stage : SlotStage) (s : Stmt) : SlotStage :=
  match stage, s with
  | .waiting, .insertCandidate row => if (row.batchId, row.canonicalUrlHash) = slot then .inserted else .waiting
  | .inserted, .commit => .committed
  | stage, _ => stage

def slotStages (slot : Uuid × String) : Monitor Stmt Answer SlotStage where
  next stage s _ := stage.next slot s
  given _ _ _ := True
  asked _ _ := True

/-- The program ends with its slot committed, unless it raises. -/
def CommitsSlot (slot : Uuid × String) {α : Type} (p : Program α) : Prop :=
  ∀ stage, p.Obeys (slotStages slot) (fun stage _ => stage = .committed) (fun _ _ => True) stage

section Rules

variable {α β : Type} {slot : Uuid × String} {stage : SlotStage}

theorem SlotStage.next_inserted (h : stage ≠ .waiting) (s : Stmt) : stage.next slot s ≠ .waiting := by
  unfold SlotStage.next
  split
  next => exact absurd rfl h
  next => simp
  next => exact h

theorem SlotStage.next_commit (h : stage ≠ .waiting) : stage.next slot .commit = .committed := by
  cases stage with
  | waiting => exact absurd rfl h
  | inserted => rfl
  | committed => rfl

theorem SlotStage.next_committed {s : Stmt} (h : stage = .committed) : stage.next slot s = .committed := by
  rw [h]
  rfl

theorem SlotStage.next_insert {row : NewsBatchCandidate} (h : (row.batchId, row.canonicalUrlHash) = slot) :
    stage.next slot (.insertCandidate row) ≠ .waiting := by
  cases stage with
  | waiting => simp [SlotStage.next, h]
  | inserted => simp [SlotStage.next]
  | committed => simp [SlotStage.next]

/-- What every statement keeps of the stage, a program keeps. -/
theorem stages_keep {K : SlotStage → Prop} (keep : ∀ stage s, K stage → K (stage.next slot s)) (p : Program α)
    (h : K stage) : p.Obeys (slotStages slot) (fun stage _ => K stage) (fun _ _ => True) stage := by
  induction p generalizing stage with
  | ret a => exact h
  | raise e => exact True.intro
  | stmt s next ih => exact ⟨True.intro, fun r _ => ih r (keep stage s h)⟩

theorem CommitsSlot.before {p : Program α} (h : CommitsSlot slot p) (f : α → Program β) :
    CommitsSlot slot (p.bind f) := by
  intro stage
  refine Prog.Obeys.bind ((h stage).mono (fun stage a done => ?_) fun _ _ h => h)
  exact stages_keep (fun stage s => SlotStage.next_committed) (f a) done

end Rules

section Batching

variable {m : Uuid} {slot : Uuid × String} {stage : SlotStage} {α : Type}

theorem commit_ends (h : stage ≠ .waiting) (next : Answer .commit → Program α) :
    (Prog.stmt .commit next).Obeys (slotStages slot) (fun stage _ => stage = .committed) (fun _ _ => True) stage := by
  refine ⟨True.intro, fun r _ => ?_⟩
  exact stages_keep (fun stage s => SlotStage.next_committed) (next r) (SlotStage.next_commit h)

theorem resolveBatchCandidate_commits (b : Uuid) (h outcome : String) (item : Option Uuid) :
    CommitsSlot (b, h) (resolveBatchCandidate m b h outcome item) := by
  intro stage
  refine ⟨True.intro, fun _ _ => ⟨True.intro, fun inserted _ => ?_⟩⟩
  have staged : ((slotStages (b, h)).next ((slotStages (b, h)).next stage (.advisoryXactLock (marketLockKey m)) ())
      (.insertCandidate ⟨b, h, outcome, item⟩) inserted) ≠ .waiting := SlotStage.next_insert rfl
  simp only [Prog.ret_bind]
  split
  next => exact commit_ends staged _
  next =>
    refine ⟨True.intro, fun row _ => ?_⟩
    have counted : SlotStage.next (b, h) _ (.countResolved b) ≠ .waiting := SlotStage.next_inserted staged _
    simp only [Prog.ret_bind]
    split
    next => exact commit_ends counted _
    next => exact commit_ends counted _
    next =>
      have kept : (finalizeBatchDelivery m b).Obeys (slotStages (b, h)) (fun stage _ => stage ≠ .waiting)
          (fun _ _ => True) _ :=
        stages_keep (fun _ s own => SlotStage.next_inserted own s) _ counted
      exact Prog.Obeys.bind (kept.mono (fun _ logId own => commit_ends own _) fun _ _ h => h)

theorem resolve_commits (candidate : Candidate) (b : Uuid) (outcome : String) (item : Option Uuid) :
    CommitsSlot (b, candidate.canonicalUrlHash) (resolve m candidate (some b) outcome item) :=
  (resolveBatchCandidate_commits b _ outcome item).before enqueueDelivery

end Batching

/-- A candidate's job of a batch that returns has committed its slot. -/
theorem processCandidate_commits {lib : PyLib} {cfg : Settings} {candidate : Candidate} {b : Uuid} (m : Uuid) :
    CommitsSlot (b, candidate.canonicalUrlHash) (processCandidate lib cfg m candidate (some b)) := by
  have leads : (processCandidate lib cfg m candidate (some b)).Leads (fun _ => True) (fun _ => True)
      fun p => ∃ m, Resolution m candidate (some b) p :=
    processCandidate_leads m (fun _ => True.intro) (fun _ _ _ => True.intro) (fun _ => True.intro)
      (fun _ => True.intro) fun _ _ _ => True.intro
  refine leads.obeys (fun _ _ _ => True.intro) (fun p h => ?_) fun _ _ _ => True.intro
  obtain ⟨m', outcome, item, rfl⟩ := h
  exact resolve_commits candidate b outcome item

/-- What a stage means for the rows of a session. -/
def SlotStage.Holds (slot : Uuid × String) (l : List Write) (d : Data) : SlotStage → Prop
  | .waiting => True
  | .inserted => Viewed slot l d
  | .committed => Recorded slot d

section Runs

variable {lib : PyLib} {admits : Admits} {allow : JobId → (s : Stmt) → Answer s → List Write → Arq → Bool}
  {i : JobId} {slot : Uuid × String}

theorem arqExec_holds {stage : SlotStage} {s : Stmt} {r : Answer s} {l l' : List Write} {a a' : Arq}
    (hx : arqExec lib i s r l a = some (l', a')) (h : stage.Holds slot l a.data) :
    (stage.next slot s).Holds slot l' a'.data := by
  rcases arqExec_data hx with done | ⟨⟨id, job, t, rfl⟩, rfl, rfl⟩
  · cases stage with
    | waiting =>
      unfold SlotStage.next
      split
      next row =>
        split
        next same => exact same ▸ insertCandidate_viewed done
        next => exact True.intro
      next _ other => simp at other
      next => exact True.intro
    | inserted =>
      have viewed : Viewed slot l' a'.data := exec_viewed done h
      unfold SlotStage.next
      split
      next _ other => simp at other
      next =>
        obtain ⟨rfl, _⟩ := Prod.mk.inj (Option.some.inj done)
        exact viewed
      next => exact viewed
    | committed => exact exec_recorded done h
  · cases stage <;> exact h

theorem arq_rows {w w' : ArqWorld} (step : Step ((arqSys lib admits).restrict allow) w w') (slot : Uuid × String)
    (h : Recorded slot w.data.data) : Recorded slot w'.data.data := by
  have kept : ∀ a : Arq, w.data.Rests a → Recorded slot a.data := by
    intro a rests
    obtain ⟨d, _, _, rows, _, rfl⟩ := rests
    unfold Recorded at h ⊢
    rw [rows]
    exact h
  rcases arq_step step with ⟨i, s, r, l, l', _, hx⟩ | ⟨a, rests, same | ⟨id, same⟩⟩
  · exact arqExec_holds hx (show SlotStage.Holds slot _ _ .committed from h)
  · rw [same]
    exact kept a rests
  · rw [same]
    exact kept a rests

/-- Of an execution the stage observed holds all along. -/
theorem execution_holds {job : Task × Settings} {w w' : ArqWorld} {tr : List ArqEvents}
    (run : Execution ((arqSys lib admits).restrict allow) i job w tr w') {p : Program Unit} {l : List Write}
    (live : w'.proc i = some (p, l)) : ((slotStages slot).observe .waiting tr).Holds slot l w'.data.data := by
  induction run generalizing p l with
  | start => exact True.intro
  | exec _ r hp hx ih =>
    obtain ⟨_, rfl⟩ := Prod.mk.inj (Option.some.inj ((World.set_self _ _ _ _).symm.trans live))
    rw [Monitor.observe_append]
    exact arqExec_holds (Sys.exec_of_restrict hx).2 (ih hp)
  | beside _ step same ih =>
    have before := ih (same ▸ live)
    generalize (slotStages slot).observe .waiting _ = stage at before
    cases stage with
    | waiting => exact True.intro
    | inserted => exact Viewed.rely before fun slot => arq_rows step slot
    | committed => exact arq_rows step slot before

theorem unmarked_starts {job : Job} {cfg : Settings} {a a' : Arq} {p : Program Unit} (unmarked : a.marked i = false)
    (hs : (arqSys lib admits).start i (.job job, cfg) a = some (p, a')) : p = taskProgram lib cfg (.job job) := by
  obtain ⟨⟨p', d⟩, started, same⟩ := Option.map_eq_some_iff.mp hs
  obtain ⟨_, _, _, rfl, _⟩ := newsSys_start started
  simp only [Arq.drops, unmarked, Bool.false_eq_true, if_false] at same
  exact (Prod.mk.inj same).1.symm

/-- A candidate's job of a batch that was not dropped and has returned has its slot in the database. -/
theorem returned_slot {cfg : Settings} {m b : Uuid} {c : Candidate} {w w' : ArqWorld} {tr : List ArqEvents}
    (run : Execution ((arqSys lib admits).restrict allow) i (.job (.processCandidate m c (some b)), cfg) w tr w')
    (unmarked : w.data.marked i = false) {l : List Write} (returned : w'.proc i = some (.ret (), l)) :
    w'.data.data.db.hasCandidate b c.canonicalUrlHash = true := by
  have starts : ∀ p a, (arqSys lib admits).start i (.job (.processCandidate m c (some b)), cfg) w.data = some (p, a) →
      p.Obeys (slotStages (b, c.canonicalUrlHash)) (fun stage _ => stage = .committed) (fun _ _ => True) .waiting :=
    fun p a hs => (unmarked_starts unmarked hs).symm ▸ processCandidate_commits m .waiting
  have done := run.obeys starts (Monitor.given_of fun _ _ _ _ => True.intro) returned
  have holds : ((slotStages (b, c.canonicalUrlHash)).observe .waiting tr).Holds _ l w'.data.data :=
    execution_holds run returned
  rw [show (slotStages (b, c.canonicalUrlHash)).observe .waiting tr = .committed from done] at holds
  exact recorded_iff.mp holds

end Runs

end NewsNotifier
