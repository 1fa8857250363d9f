import NewsNotifier.CandidateSlots

namespace NewsNotifier

open Interleaving

/-- Stored items are as `process_candidate` makes them. -/
def madePolicy (lib : PyLib) : Policy := ⟨marketLockKey, fun _ _ => True, Made lib, False⟩

theorem madePolicy_governs (lib : PyLib) (admits : Admits) :
    (ledgerContract (madePolicy lib)).Governs (newsSys lib admits) :=
  newsSys_governs fun _ _ _ _ _ => ⟨⟨rfl, fun _ h => h, fun _ _ _ _ => True.intro⟩, False.elim⟩

/-- The process `i` is not started again. -/
def notAgain (i : JobId) : Admits := fun j _ _ _ => j ≠ i

def Database.hasCandidate (db : Database) (batchId : Uuid) (h : String) : Bool :=
  db.candidates.any fun c => c.batchId = batchId && c.canonicalUrlHash = h

theorem recorded_iff {d : Data} {b : Uuid} {h : String} :
    Recorded (b, h) d ↔ d.db.hasCandidate b h = true := by
  simp [Recorded, Database.tables, Database.hasCandidate]

/-- One execution of `process_candidate` for a batch, in any run: when it has ended, it has returned
with its slot in the committed ledger if and only if its answers are digestible, and until then it
can go on, unless it waits for a lock. -/
theorem candidate_slot (lib : PyLib) {d₀ : Data} (h₀ : d₀.Initial) {w₀ : NewsWorld}
    (h : Reachable (newsSys lib anyTask) d₀ w₀) {i : JobId} {cfg : Settings} {m b : Uuid} {c : Candidate}
    (begun : w₀.proc i = some (processCandidate lib cfg m c (some b), [])) (a : CandidateAnswers)
    {w : NewsWorld} (run : Steps ((newsSys lib (notAgain i)).restrict (a.agrees i)) w₀ w)
    {p : Program Unit} {l : List Write} (here : w.proc i = some (p, l)) :
    (p.Ended → ((p = .ret () ∧ w.data.db.hasCandidate b c.canonicalUrlHash = true) ↔
      a.digestible lib cfg c = true)) ∧
    ∀ s next, p = .stmt s next → (∃ e ∈ w.data.locks, s = .advisoryXactLock e.1 ∧ e.2 ≠ i) ∨
      ∃ r l' d', exec lib i s r l w.data = some (l', d') := by
  have governs : (ledgerContract (madePolicy lib)).Governs
      ((newsSys lib (notAgain i)).restrict (a.agrees i)) :=
    (madePolicy_governs lib (notAgain i)).restrict (fun _ h => h)
      (fun _ _ _ h => h) (fun _ h => h) (fun _ _ _ hi ha => Act.inv ha hi)
      (fun _ _ _ _ _ _ _ _ _ _ ha => ha)
      (fun _ _ _ _ _ hi hs => ((madePolicy_governs lib (notAgain i)).start hs hi).1)
      (fun _ _ hi => (madePolicy_governs lib (notAgain i)).stop hi)
      (fun _ _ _ hi he => (madePolicy_governs lib (notAgain i)).env he hi)
  have sound : (ledgerContract (madePolicy lib)).Sound ((newsSys lib (notAgain i)).restrict (a.agrees i)) w₀ :=
    ((madePolicy_governs lib anyTask).sound h₀.inv h).fewer fun _ _ _ _ _ _ _ hx => (Sys.exec_of_restrict hx).2
  have never : ∀ j d, ((newsSys lib (notAgain i)).restrict (a.agrees i)).start i j d = none := by
    simp [Sys.restrict, newsSys, notAgain]
  have others : ∀ d d', (ledgerContract (madePolicy lib)).Other i d d' → slotTerms.rely d d' := by
    rintro d d' ⟨_, ne, hi, _, act⟩ slot hs
    exact (act.frame hi ne).tables.candidates slot hs
  obtain ⟨sound', own⟩ := governs.follow (T := slotTerms) never
    (fun d hi o ho => (hi.stored.made _ (List.mem_map_of_mem ho)).embedded) others sound (fun p l hp => by
      rw [begun] at hp
      obtain ⟨rfl, rfl⟩ := Prod.mk.inj (Option.some.inj hp)
      exact @processCandidate_ends lib (notAgain i) _ _ _ _ _ _ _) run
  have embedded : slotTerms.inv w.data := fun o ho => (sound'.data.stored.made _ (List.mem_map_of_mem ho)).embedded
  refine ⟨fun ended => ?_, fun s next _ => ?_⟩
  · have last := own p l here
    cases p with
    | stmt s next => exact ended.elim
    | ret u =>
      obtain ⟨ok, recorded⟩ := last w.data (slotTerms.rely_refl _) embedded
      exact ⟨fun _ => ok, fun _ => ⟨rfl, recorded_iff.mp recorded⟩⟩
    | raise e =>
      have only := last w.data (slotTerms.rely_refl _) embedded
      have other : e ≠ .integrityError "uq_news_market_url" := sound'.fault here
      exact ⟨fun h => by simp at h, fun ok => absurd (only ok) other⟩
  · by_cases waits : ∃ e ∈ w.data.locks, s = .advisoryXactLock e.1 ∧ e.2 ≠ i
    · exact .inl waits
    · refine .inr (exec_enabled lib i s l w.data ?_)
      rintro key rfl e he rfl
      by_contra other
      exact waits ⟨e, he, rfl, other⟩

/-- An answer of the model with all required keys, under this title. -/
def titledAnswer (title : Json) : Json :=
  .obj [("is_relevant", .bool true), ("relevance_reasoning", .str ""), ("relevance_score", .num 1),
    ("credibility_reasoning", .str ""), ("credibility_signal", .num 1), ("impact_hint", .str "neutral"),
    ("title", title), ("summary", .str "s"), ("proofs", .arr [])]

def titledAnswers (title : Json) : CandidateAnswers where
  scraped := .ok (some ⟨"a", "text", true, .none, none⟩)
  raw := some (titledAnswer title)
  embedding := some [1]
  stored := []
  nearest := none

def titledOracle (title : Json) : Oracle
  | .generateJson _ _ => some (some (titledAnswer title))
  | s => sampleOracle "t" s

/-- The sample market with an open batch of one. -/
def oneSlot : List NewsMove :=
  .start (.call 1) (.openBatch 1 1, sampleSettings) :: execs sampleLib (sampleOracle "t") (.call 1) 2

def slotTask : Task := .job (.processCandidate 1 (sampleCandidate "a") (some 2))

def slotJob : JobId := .processCandidate 1 "a"

def beginSlot (w : NewsWorld) : NewsWorld :=
  w.set slotJob (some (taskProgram sampleLib sampleSettings slotTask, []))
    (w.data.begin slotJob slotTask sampleSettings)

def hasRaised (w : NewsWorld) (i : JobId) (error : Raised) : Bool :=
  match w.proc i with
  | some (.raise e, _) => decide (e = error)
  | _ => false

theorem candidate_slot_sample : ∃ w : NewsWorld,
    hasReturned w slotJob = true ∧ w.data.db.hasCandidate 2 "a" = true := by
  have run : ((newsSys sampleLib anyTask).run sampleWorld oneSlot).map (fun w =>
      (w.proc slotJob).isNone && w.data.db.hasBatch 2 1 &&
        (((newsSys sampleLib (notAgain slotJob)).restrict ((titledAnswers (.str "t")).agrees slotJob)).run
          (beginSlot w) (execs sampleLib (titledOracle (.str "t")) slotJob 16)).any
            (hasReturned · slotJob)) = some true := by
    decide +kernel
  obtain ⟨w₁, steps, hp⟩ := Sys.run_reaches run
  simp only [Bool.and_eq_true, Option.isNone_iff_eq_none] at hp
  obtain ⟨⟨idle, batch⟩, later⟩ := hp
  obtain ⟨w, hw, returned⟩ := (Option.any_eq_true _ _).mp later
  have start : (newsSys sampleLib anyTask).start slotJob (slotTask, sampleSettings) w₁.data =
      some (taskProgram sampleLib sampleSettings slotTask, w₁.data.begin slotJob slotTask sampleSettings) := by
    simp [newsSys, anyTask, slotTask, slotJob, Task.named, Task.grounded, batch]
  refine ⟨w, returned, ?_⟩
  unfold hasReturned at returned
  split at returned
  next u l here =>
    have slot := (candidate_slot sampleLib sampleData_initial (steps.tail (.start idle start))
      (World.set_self _ _ _ _) (titledAnswers (.str "t")) (Sys.run_steps hw) here).1 True.intro
    exact (slot.mpr (by decide +kernel)).2
  next => simp at returned

/-- A null title passes the check of the keys; the execution then raises, its slot is not recorded
and its batch stays open. -/
theorem null_title : ensureRequiredKeys extractionRequired (titledAnswer .null) = .ok () ∧
    ∃ w : NewsWorld, Reachable ((newsSys sampleLib anyTask).restrict
        ((titledAnswers .null).agrees slotJob)) sampleData w ∧
      (∃ l, w.proc slotJob = some (.raise (.py .attributeError), l)) ∧
      w.data.db.hasCandidate 2 "a" = false ∧
      ∃ row ∈ w.data.db.batches, row.id = 2 ∧ row.status = .opened := by
  refine ⟨by decide +kernel, ?_⟩
  have run : (((newsSys sampleLib anyTask).restrict
      ((titledAnswers .null).agrees slotJob)).run sampleWorld
      (oneSlot ++ .start slotJob (slotTask, sampleSettings) ::
        execs sampleLib (titledOracle .null) slotJob 3)).map (fun w =>
      hasRaised w slotJob (.py .attributeError) && !w.data.db.hasCandidate 2 "a" &&
        w.data.db.batches.any fun row => row.id = 2 && row.status = .opened) = some true := by
    decide +kernel
  obtain ⟨w, steps, hp⟩ := Sys.run_reaches run
  simp only [Bool.and_eq_true, Bool.not_eq_true', List.any_eq_true, decide_eq_true_eq] at hp
  obtain ⟨⟨raised, missing⟩, row, hr, id, status⟩ := hp
  refine ⟨w, steps, ?_, missing, row, hr, id, status⟩
  unfold hasRaised at raised
  split at raised
  next e l here => exact ⟨l, by rw [here, of_decide_eq_true raised]⟩
  next => simp at raised

end NewsNotifier
