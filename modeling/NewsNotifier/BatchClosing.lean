import NewsNotifier.LedgerGoverns
import NewsNotifier.NewsRuns

namespace NewsNotifier

open Interleaving

namespace Commit

variable {P : Policy} {i : JobId} {x : Ledger} {t : Tables}

/-- An update of an open row leaves every closed row. -/
theorem setBatch_closed (hx : x.Inv P) {t : Tables} (same : t.batches = x.tables.batches)
    {row r : NewsBatch} (mem : row ∈ x.tables.batches) (status : row.status = .opened)
    (hr : r ∈ x.tables.batches) (closed : r.status = .closed) {n : Nat} {s : BatchStatus} :
    r ∈ (t.setBatch row.id n s).batches := by
  have ne : r.id ≠ row.id := by
    intro e
    obtain rfl := hx.rows.unique hr mem e
    simp [closed] at status
  exact (Tables.mem_setBatch_of_ne ne).mpr (same ▸ hr)

theorem closed_row (h : Commit P i x t) (hx : x.Inv P) {r : NewsBatch} (hr : r ∈ x.tables.batches)
    (closed : r.status = .closed) : r ∈ t.batches := by
  cases h with
  | nothing | alone | solo | repeated | late => exact hr
  | opened row _ _ _ _ _ => exact List.mem_append_left _ hr
  | counted c row item enter new mem status more => exact setBatch_closed hx rfl mem status hr closed
  | closed c row item log enter new mem status last gather =>
    exact setBatch_closed hx rfl mem status hr closed
  | forced row log locked mem status gather => exact setBatch_closed hx rfl mem status hr closed

/-- A new log gathers the items of a batch that was open, or lists one item under a key of its own. -/
theorem gathered (h : Commit P i x t) {log : LogHead} (hl : log ∈ t.logs) (new : log ∉ x.tables.logs) :
    (∃ row ∈ x.tables.batches, row.status = .opened ∧ row.id = log.batchId ∧ t.HasBatch row.id row.marketId ∧
      log.newsItemIds.Perm (((t.itemsOf row.marketId).filter (·.batchId = some row.id)).map (·.id))) ∨
    (∀ r ∈ t.batches, r.id ≠ log.batchId) ∧ ∃ id, log.newsItemIds = [id] := by
  have closes : ∀ (t' : Tables) {row : NewsBatch} {log' : Option LogHead} {n : Nat},
      t'.batches = x.tables.batches → t'.logs = x.tables.logs → row ∈ x.tables.batches →
      row.status = .opened → Gathers x i t' row log' → t = (t'.setBatch row.id n .closed).addLog log' →
      ∃ row ∈ x.tables.batches, row.status = .opened ∧ row.id = log.batchId ∧ t.HasBatch row.id row.marketId ∧
        log.newsItemIds.Perm (((t.itemsOf row.marketId).filter (·.batchId = some row.id)).map (·.id)) := by
    rintro t' row log' n batches logs mem status gather rfl
    rcases List.mem_append.mp hl with old | own
    · exact absurd (logs ▸ old) new
    · obtain rfl : log' = some log := by simpa using own
      have here : (t'.setBatch row.id n .closed).HasBatch row.id row.marketId :=
        Tables.HasBatch.setBatch ⟨row, batches ▸ mem, rfl, rfl⟩
      exact ⟨row, mem, status, gather.2.2.2.1.symm, here, gather.2.2.2.2⟩
  have lists : ∀ {log' : LogHead} {id : Uuid}, Solo x i log' id → log ∈ x.tables.logs ++ [log'] →
      t.batches = x.tables.batches → (∀ r ∈ t.batches, r.id ≠ log.batchId) ∧ ∃ id, log.newsItemIds = [id] := by
    intro log' id solo mem batches
    rcases List.mem_append.mp mem with old | own
    · exact absurd old new
    · obtain rfl := List.mem_singleton.mp own
      exact ⟨fun r hr => solo.unusedKey.batch r (batches ▸ hr), id, solo.ids⟩
  cases h with
  | nothing | opened | repeated | late | counted => exact absurd hl new
  | alone item log' store batch solo apart => exact .inr (lists solo hl rfl)
  | solo log' id solo stray => exact .inr (lists solo hl rfl)
  | closed c row item log' enter new' mem status last gather =>
    exact .inl (closes ((x.tables.addItem item).addCandidate row.id c) rfl rfl mem status
      (gather.addCandidate row.id c) rfl)
  | forced row log' locked mem status gather => exact .inl (closes _ rfl rfl mem status gather rfl)

end Commit

theorem Act.closed_row {P : Policy} {a : Option JobId} {x y : Ledger} (h : Act P a x y)
    (hx : x.Inv P) {r : NewsBatch} (hr : r ∈ x.tables.batches) (closed : r.status = .closed) :
    r ∈ y.tables.batches := by
  cases h with
  | stay | lock | draw | post => exact hr
  | commit hc => exact hc.closed_row hx hr closed

theorem Act.gathered {P : Policy} {a : Option JobId} {x y : Ledger} (h : Act P a x y)
    {log : LogHead} (hl : log ∈ y.tables.logs) (new : log ∉ x.tables.logs) :
    (∃ row ∈ x.tables.batches, row.status = .opened ∧ row.id = log.batchId ∧
      y.tables.HasBatch row.id row.marketId ∧
      log.newsItemIds.Perm (((y.tables.itemsOf row.marketId).filter (·.batchId = some row.id)).map (·.id))) ∨
    (∀ r ∈ y.tables.batches, r.id ≠ log.batchId) ∧ ∃ id, log.newsItemIds = [id] := by
  cases h with
  | stay | lock | draw | post => exact absurd hl new
  | commit hc => exact hc.gathered hl new

/-- A log under a batch's id appears in the commit that closes the batch. -/
theorem Act.new_log {P : Policy} {a : Option JobId} {x y : Ledger} (h : Act P a x y) (hx : x.Inv P)
    {log : LogHead} (hl : log ∈ y.tables.logs) (new : log ∉ x.tables.logs) {r : NewsBatch}
    (hr : r ∈ y.tables.batches) (key : r.id = log.batchId) :
    r.status = .closed ∧ ∃ row ∈ x.tables.batches, row.id = r.id ∧ row.status = .opened := by
  have closed := (h.inv hx).rows.keyClosed log hl r hr key.symm
  rcases h.gathered hl new with ⟨row, mem, status, same, _⟩ | ⟨apart, _⟩
  · exact ⟨closed, row, mem, same.trans key.symm, status⟩
  · exact absurd key (apart r hr)

/-- Nothing is asked of the items. -/
def anyPolicy : Policy := ⟨marketLockKey, fun _ _ => True, fun _ => True, False⟩

theorem anyPolicy_governs (lib : PyLib) (admits : Admits) :
    (ledgerContract anyPolicy).Governs (newsSys lib admits) :=
  newsSys_governs fun _ _ _ _ _ =>
    ⟨⟨rfl, fun _ _ => True.intro, fun _ _ _ _ => True.intro⟩, False.elim⟩

def Database.countOf (db : Database) (batchId : Uuid) : Nat :=
  (db.candidates.filter (·.batchId = batchId)).length

/-- A batch and its count, its ledger rows and its delivery agree. -/
structure Agrees (db : Database) (b : NewsBatch) : Prop where
  counted : b.status = .opened →
    b.resolvedCount = db.countOf b.id ∧ b.resolvedCount < b.expectedCount
  bounded : b.resolvedCount ≤ b.expectedCount
  single : (db.logs.filter (·.batchId = b.id)).length ≤ 1
  delivered : ∀ log ∈ db.logs, log.batchId = b.id → b.status = .closed

theorem tables_counted (db : Database) (b : Uuid) : db.tables.counted b = db.countOf b := by
  simp only [Tables.counted, Database.tables, Database.countOf, List.filter_map, List.length_map]
  rfl

theorem filter_length_le_one {α : Type} {l : List α} {f : α → Uuid} (h : (l.map f).Nodup) (k : Uuid) :
    (l.filter fun a => f a = k).length ≤ 1 := by
  have count := List.nodup_iff_count_le_one.mp h k
  rw [List.count, List.countP_map, List.countP_eq_length_filter] at count
  exact count

theorem Ledger.Inv.agrees {P : Policy} {d : Data} (h : d.ledger.Inv P) {b : NewsBatch}
    (hb : b ∈ d.db.batches) : Agrees d.db b where
  counted hs := by
    rw [← tables_counted]
    exact (h.counts b hb).2 hs
  bounded := (h.counts b hb).1
  single := by
    have keys : (d.db.logs.map (·.batchId)).Nodup := by
      have := h.rows.logKeys
      simp only [Data.ledger, Database.tables, List.map_map] at this
      exact this
    exact filter_length_le_one keys b.id
  delivered log hl key := h.rows.keyClosed log.head (List.mem_map_of_mem hl) b hb key

/-- The closing protocol: in every reachable state of any run a batch agrees with its ledger rows
and its delivery, a closed batch stays as it is, and a log under a batch's id is committed with
the close of that batch. -/
theorem batch_closing (lib : PyLib) (admits : Admits) {d₀ : Data} (h₀ : d₀.Initial) {w : NewsWorld}
    (h : Reachable (newsSys lib admits) d₀ w) :
    (∀ b ∈ w.data.db.batches, Agrees w.data.db b) ∧
    (∀ w', Steps (newsSys lib admits) w w' → ∀ b ∈ w.data.db.batches, b.status = .closed →
      b ∈ w'.data.db.batches ∧ ∀ b' ∈ w'.data.db.batches, b'.id = b.id → b' = b) ∧
    (∀ w', Step (newsSys lib admits) w w' → ∀ log ∈ w'.data.db.logs,
      (∀ old ∈ w.data.db.logs, old.id ≠ log.id) → ∀ b ∈ w'.data.db.batches, b.id = log.batchId →
        b.status = .closed ∧ ∃ old ∈ w.data.db.batches, old.id = b.id ∧ old.status = .opened) := by
  have governs := anyPolicy_governs lib admits
  have sound := governs.sound h₀.inv h
  refine ⟨fun b hb => sound.data.agrees hb, ?_, ?_⟩
  · intro w' hw b hb closed
    obtain ⟨sound', kept⟩ := governs.steps_ind
      (R := fun (d d' : Data) => ∀ r ∈ d.db.batches, r.status = .closed → r ∈ d'.db.batches)
      (fun _ hr _ => hr) (fun h h' r hr hs => h' r (h r hr hs) hs)
      (fun hi ha r hr hs => Act.closed_row ha hi hr hs) sound hw
    have mem := kept b hb closed
    exact ⟨mem, fun b' hb' e => sound'.data.rows.unique hb' mem e⟩
  · intro w' hw log hl new b hb key
    obtain ⟨_, a, act⟩ := governs.step sound hw
    refine act.new_log sound.data (List.mem_map_of_mem hl) ?_ hb key
    intro old
    obtain ⟨log', hl', e⟩ := List.mem_map.mp old
    exact new log' hl' (congrArg LogHead.id e)

/-- A batch of one candidate, closed by it. -/
def closedBySample : List NewsMove :=
  [.start (.call 1) (.openBatch 1 1, sampleSettings)] ++
  execs sampleLib (sampleOracle "t") (.call 1) 2 ++
  [.start (.call 2) (.job (.processCandidate 1 (sampleCandidate "a") (some 2)), sampleSettings)] ++
  execs sampleLib (sampleOracle "t") (.call 2) 16

theorem batch_closing_sample : ∃ w : NewsWorld,
    w.data.db.batches.any (·.status = .closed) = true ∧ w.data.db.logs.length = 1 ∧
      ∀ b ∈ w.data.db.batches, Agrees w.data.db b := by
  have run : ((newsSys sampleLib anyTask).run sampleWorld closedBySample).map (fun w =>
      w.data.db.batches.any (·.status = .closed) && w.data.db.logs.length = 1) = some true := by
    decide +kernel
  obtain ⟨w, steps, hp⟩ := Sys.run_reaches run
  simp only [Bool.and_eq_true, decide_eq_true_eq] at hp
  exact ⟨w, hp.1, hp.2, (batch_closing sampleLib anyTask sampleData_initial steps).1⟩

end NewsNotifier
