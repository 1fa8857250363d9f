import NewsNotifier.MarketSpecs

namespace NewsNotifier

open Interleaving

variable {lib : PyLib} {admits : Admits} {P : Policy} {i : JobId} {d : Data} {cfg : Settings}

theorem enqueueStuckBatches_meets (key : P.lockKey = marketLockKey) :
    Meets lib admits P i enqueueStuckBatches (fun _ l _ => l = []) [] d := by
  refine meets_quiet rfl fun now d₁ d₁' _ _ _ _ => ?_
  refine meets_quiet rfl fun rows d₂ d₂' _ _ hx₂ same₂ => ?_
  simp only [Prog.ret_bind]
  have batches : ∀ row ∈ rows, d₂'.ledger.tables.HasBatch row.1 row.2 := by
    rintro row hr
    obtain ⟨ok, _, _⟩ := answered_eq hx₂
    obtain ⟨b, hb, rfl⟩ := List.mem_map.mp ((List.isPerm_iff.mp ok).mem_iff.mp hr)
    rw [same₂]
    exact ⟨b, List.mem_of_mem_filter hb, rfl, rfl⟩
  refine wp_mono (wp_forEach (K := fun l (d : Data) => l = [] ∧
    ∀ row ∈ rows, d.ledger.tables.HasBatch row.1 row.2) rows ?_ ?_ ⟨rfl, batches⟩)
    (fun _ _ _ _ h => h.1) fun _ h => h
  · rintro row hr l d₃ _ ⟨rfl, all⟩
    refine wp_keep (K := fun (d : Data) => ∀ row ∈ rows, d.ledger.tables.HasBatch row.1 row.2) ?_ ?_ ?_ all
    · exact fun _ _ h _ all row hr => (frame_of_rely h).tables.batch _ _ (all row hr)
    · exact fun _ _ _ h all row hr => Act.hasBatch h (all row hr)
    · refine wp_bind (wp_mono (forceCloseBatch_meets key .nil (all row hr)) ?_ fun _ h => h)
      rintro logId _ d₄ _ rfl _
      exact enqueueDelivery_meets logId
  · exact fun _ _ _ h _ hk => ⟨hk.1, fun row hr => (frame_of_rely h).tables.batch _ _ (hk.2 row hr)⟩

theorem grounded_hasBatch {db : Database} {b m : Uuid} (h : db.hasBatch b m = true) :
    db.tables.HasBatch b m := by
  obtain ⟨row, hr, hb⟩ := List.any_eq_true.mp h
  simp only [Bool.and_eq_true, decide_eq_true_eq] at hb
  exact ⟨row, hr, hb⟩

theorem taskProgram_meets {task : Task} (covers : P.Covers lib cfg) (plain : P.strict → task.plain = true)
    (grounded : task.grounded d.db = true) :
    Meets lib admits P i (taskProgram lib cfg task) (fun _ _ _ => True) [] d := by
  have weaken : ∀ {p : Program Unit} {Q : Unit → List Write → Data → Prop},
      Meets lib admits P i p Q [] d → Meets lib admits P i p (fun _ _ _ => True) [] d :=
    fun h => wp_mono h (fun _ _ _ _ _ => True.intro) fun _ h => h
  have calm : ∀ {p : Program Unit}, p.Each (·.calm = true) (ledgerContract P).fault →
      Meets lib admits P i p (fun _ _ _ => True) [] d :=
    fun h => weaken (meets_calm_program h .nil)
  cases task with
  | job j =>
    cases j with
    | processMarket m => exact weaken (processMarket_meets covers.key)
    | processCandidate m candidate batchId =>
      refine weaken (processCandidate_meets covers ?_)
      rintro b rfl
      exact grounded_hasBatch grounded
    | deliverBatch logId => exact weaken (deliverBatch_meets logId)
  | subscribe body =>
    exact calm (subscribe_does calm_serves (fun _ h => h) rfl (fun _ _ => rfl) (fun _ _ => rfl) body)
  | unsubscribe marketId => exact calm (unsubscribe_does calm_serves (fun _ h => h) marketId)
  | updateMarket marketId body =>
    exact calm (updateMarket_does calm_serves (fun _ h => h) (fun _ _ => rfl) marketId body)
  | enqueueDueMarkets => exact calm (enqueueDueMarkets_does calm_serves.reads fun _ _ => rfl)
  | enqueueStuckDeliveries =>
    refine weaken (meets_quiet_program ⟨rfl, fun now => ⟨rfl, fun logIds => ?_⟩⟩)
    exact Prog.Each.forEach fun logId _ => enqueueDelivery_does (fun _ => rfl) (some logId)
  | enqueueStuckBatches => exact weaken (enqueueStuckBatches_meets covers.key)
  | resolveBatchCandidate m b h outcome newsItemId =>
    refine wp_bind (wp_mono (resolveBatchCandidate_meets covers.key .addNone
      (grounded_hasBatch grounded) (by simp) fun hs => by simpa [Task.plain] using plain hs) ?_ fun _ h => h)
    rintro logId _ d₁ _ rfl _
    exact wp_mono (enqueueDelivery_meets logId) (fun _ _ _ _ _ => True.intro) fun _ h => h
  | forceCloseBatch m b =>
    refine wp_bind (wp_mono (forceCloseBatch_meets covers.key .nil (grounded_hasBatch grounded)) ?_
      fun _ h => h)
    rintro logId _ d₁ _ rfl _
    exact wp_mono (enqueueDelivery_meets logId) (fun _ _ _ _ _ => True.intro) fun _ h => h
  | openBatch m n =>
    change Meets lib admits P i (.stmt (.insertBatch m n none) fun _ =>
      .stmt .commit fun _ => .ret ()) _ _ _
    refine openBatch_meets .nil (of_decide_eq_true grounded) fun new d₁ _ => ?_
    exact meets_ret fun _ _ _ => True.intro

/-- Refinement: every step of the system is a step of the ledger. -/
theorem newsSys_governs (covers : ∀ i task cfg d, admits i task cfg d = true →
    P.Covers lib cfg ∧ (P.strict → task.plain = true)) : (ledgerContract P).Governs (newsSys lib admits) where
  keep hi ha := Act.inv ha hi
  start := by
    rintro i ⟨task, cfg⟩ d p d' hs hi
    obtain ⟨_, grounded, ok, rfl, rfl⟩ := newsSys_start hs
    obtain ⟨cov, plain⟩ := covers i task cfg d ok
    exact ⟨.stay _ _, taskProgram_meets cov plain grounded⟩
  stop {i d} _ := by
    have act : Act P (some i) d.ledger (d.ledger.release i d.ledger.tables) := .commit .nothing
    exact act
  env := by
    intro t d d' he _
    obtain ⟨_, rfl⟩ := newsSys_env he
    exact .stay _ _

theorem Data.Initial.inv (h : d.Initial) : d.ledger.Inv P where
  locks := by simp [Data.ledger, h.locks]
  drawn := h.drawn
  rows := by
    refine ⟨?_, ?_, ?_, ?_, ?_, ?_, ?_, ?_, ?_, ?_⟩ <;>
      simp [Data.ledger, Database.tables, h.batches, h.items, h.candidates, h.logs]
  counts := by simp [Counts, Data.ledger, Database.tables, h.batches]
  listing _ := by
    refine ⟨?_, ?_⟩ <;> simp [Tables.listed, Data.ledger, Database.tables, h.logs]
  stored := by
    refine ⟨?_, ?_⟩ <;> simp [Data.ledger, Database.tables, h.items]
  posts := by simp [Data.ledger, h.sent]

end NewsNotifier
