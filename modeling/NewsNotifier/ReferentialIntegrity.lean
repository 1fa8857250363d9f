import NewsNotifier.DeliveredOrder
import NewsNotifier.RowReferences
import NewsNotifier.SessionViews

namespace NewsNotifier

open Interleaving

/-- The runs of the service: its jobs, its requests and its crons. -/
def serviceTask : Admits := fun _ task _ _ => task.isService

theorem service_start {lib : PyLib} {i : JobId} {job : Task × Settings} {d d' : Data} {p : Program Unit}
    (h : (newsSys lib serviceTask).start i job d = some (p, d')) :
    (newsSys lib plainTask).start i job d = some (p, d') := by
  obtain ⟨task, cfg⟩ := job
  obtain ⟨named, grounded, service, rfl, rfl⟩ := newsSys_start h
  have plain : task.plain = true := by
    cases task with
    | resolveBatchCandidate => simp [serviceTask, Task.isService] at service
    | _ => rfl
  simp [newsSys, named, grounded, plainTask, plain]

theorem service_step {lib : PyLib} {w w' : NewsWorld} (h : Step (newsSys lib serviceTask) w w') :
    Step (newsSys lib plainTask) w w' := by
  cases h with
  | exec r hp hx => exact .exec r hp hx
  | start hp hs => exact .start hp (service_start hs)
  | stop hp => exact .stop hp
  | env he => exact .env he

theorem service_steps {lib : PyLib} {w w' : NewsWorld} (h : Steps (newsSys lib serviceTask) w w') :
    Steps (newsSys lib plainTask) w w' :=
  Relation.ReflTransGen.mono (fun _ _ => service_step) _ _ h

theorem service_run {lib : PyLib} {i : JobId} {job : Task × Settings} {w w' : NewsWorld} {tr : List NewsEvent}
    (run : Execution (newsSys lib serviceTask) i job w tr w') : Execution (newsSys lib plainTask) i job w tr w' := by
  induction run with
  | start idle hs => exact .start idle (service_start hs)
  | exec _ r hp hx ih => exact ih.exec r hp hx
  | beside _ step same ih => exact ih.beside (service_step step) same

section Sessions

variable {lib : PyLib} {i : JobId} {job : Task × Settings} {w w' : NewsWorld} {tr before after : List NewsEvent}
  {e : NewsEvent} {p : Program Unit}

theorem run_refers (run : Execution (newsSys lib serviceTask) i job w tr w') (split : tr = before ++ e :: after) :
    Refers (before.map Event.said) e.stmt := by
  have starts : ∀ q d', (newsSys lib serviceTask).start i job w.data = some (q, d') →
      q.Obeys (Monitor.history (fun _ _ _ => True) Refers) (fun _ _ => True) (fun _ _ => True) [] := by
    intro q d' hs
    obtain ⟨_, _, service, rfl, _⟩ := newsSys_start hs
    exact taskProgram_refers service [] (List.Subset.refl _)
  exact run.recorded starts (fun _ _ _ _ => True.intro) split

/-- A market that a session has read is there once it has committed. -/
theorem Found.row {m : Uuid} (found : Found m (before.map Event.said))
    (run : Execution (newsSys lib serviceTask) i job w tr w') (split : tr = before ++ e :: after)
    (ended : w'.proc i = some (p, [])) : ∃ market ∈ w'.data.db.markets, market.id = m := by
  obtain ⟨id, market, said, rfl⟩ := found
  obtain ⟨_, _, l, d, l', d', split', hx⟩ := run.said_event split said
  have hx : exec lib i (.getMarket id) (some market) l d = some (l', d') := hx
  obtain ⟨ok, rfl, rfl⟩ := answered_eq hx
  obtain ⟨read, _⟩ := KeyedRows.key_of_find (of_decide_eq_true ok).symm
  obtain ⟨row, hr, key⟩ := List.mem_map.mp
    (markets_accrue.seen run split' hx (List.mem_map_of_mem (f := Market.key) read) ended)
  exact ⟨row, hr, congrArg Prod.fst key⟩

theorem deliver_columns {o o' : NewsItem} (same : o.deliver = o'.deliver) :
    o.id = o'.id ∧ o.marketId = o'.marketId ∧ o.batchId = o'.batchId := by
  simp only [NewsItem.deliver, NewsItem.mk.injEq] at same
  exact ⟨same.1, same.2.1, same.2.2.1⟩

theorem exec_inserted {o : NewsItem} {new : Inserted} {l l' : List Write} {d d' : Data}
    (hx : exec lib i (.insertItem o) (some new) l d = some (l', d')) :
    NewsItem.deliver { o with id := new.id, discoveredAt := new.now } ∈ (d'.db.after l').tables.items := by
  simp only [exec] at hx
  split at hx
  next =>
    obtain ⟨none, _, _⟩ := answered_eq hx
    cases none
  next =>
    split at hx
    next =>
      obtain ⟨rfl, rfl⟩ := Prod.mk.inj (Option.some.inj hx)
      rw [after_items]
      exact List.mem_append_right _ (List.mem_filterMap.mpr ⟨_, List.mem_append_right _ List.mem_cons_self, rfl⟩)
    next => simp at hx

/-- An item that a session has inserted is there once it has committed. -/
theorem Inserts.row {id : Uuid} {o : NewsItem} (stored : Inserts id o (before.map Event.said))
    (run : Execution (newsSys lib serviceTask) i job w tr w') (split : tr = before ++ e :: after)
    (ended : w'.proc i = some (p, [])) :
    ∃ row ∈ w'.data.db.items, row.id = id ∧ row.marketId = o.marketId ∧ row.batchId = o.batchId := by
  obtain ⟨new, said, rfl⟩ := stored
  obtain ⟨_, _, l, d, l', d', split', hx⟩ := run.said_event split said
  have hx : exec lib i (.insertItem o) (some new) l d = some (l', d') := hx
  obtain ⟨row, hr, same⟩ := List.mem_map.mp (items_accrue.seen run split' hx (exec_inserted hx) ended)
  exact ⟨row, hr, deliver_columns same⟩

/-- The items of a log are there once its session has committed, in its market. -/
theorem Lines.rows {m b : Uuid} {ids : List Uuid} (lines : Lines m b ids (before.map Event.said))
    (run : Execution (newsSys lib serviceTask) i job w tr w') (split : tr = before ++ e :: after)
    (ended : w'.proc i = some (p, [])) :
    ids ≠ [] ∧ ∀ id ∈ ids, ∃ row ∈ w'.data.db.items, row.id = id ∧ row.marketId = m := by
  rcases lines with ⟨items, said, some, rfl⟩ | ⟨id, o, stored, market, rfl⟩
  · refine ⟨by simpa using some, List.forall_mem_map.mpr fun o ho => ?_⟩
    obtain ⟨_, _, l, d, l', d', split', hx⟩ := run.said_event split said
    have hx : exec lib i (.batchItems m b) items l d = Option.some (l', d') := hx
    obtain ⟨ok, rfl, rfl⟩ := answered_eq hx
    simp only [Bool.and_eq_true] at ok
    have listed := List.mem_of_mem_filter ((List.isPerm_iff.mp ok.1).mem_iff.mp ho)
    obtain ⟨listed, market⟩ := List.mem_filter.mp listed
    obtain ⟨row, hr, same⟩ := List.mem_map.mp
      (items_accrue.seen run split' hx (List.mem_map_of_mem (f := NewsItem.deliver) listed) ended)
    obtain ⟨key, own, _⟩ := deliver_columns same
    exact ⟨row, hr, key, own.trans (of_decide_eq_true market)⟩
  · refine ⟨by simp, List.forall_mem_singleton.mpr ?_⟩
    obtain ⟨row, hr, key, own, _⟩ := stored.row run split ended
    exact ⟨row, hr, key, own.trans market⟩

end Sessions

/-- Every foreign key of the schema, the ids in a log's JSON column among them, finds its row; the rows
that a batch, an item or a log brings together are of one market. -/
structure Database.Integral (db : Database) : Prop where
  batchMarket : ∀ row ∈ db.batches, ∃ market ∈ db.markets, market.id = row.marketId
  itemMarket : ∀ o ∈ db.items, ∃ market ∈ db.markets, market.id = o.marketId
  itemBatch : ∀ o ∈ db.items, ∀ b ∈ o.batchId, ∃ row ∈ db.batches, row.id = b ∧ row.marketId = o.marketId
  slotBatch : ∀ c ∈ db.candidates, ∃ row ∈ db.batches, row.id = c.batchId
  slotItem : ∀ c ∈ db.candidates, ∀ id ∈ c.newsItemId, ∃ o ∈ db.items, o.id = id ∧ o.batchId = some c.batchId
  logMarket : ∀ log ∈ db.logs, ∃ market ∈ db.markets, market.id = log.marketId
  logItems : ∀ log ∈ db.logs, log.newsItemIds ≠ [] ∧
    ∀ id ∈ log.newsItemIds, ∃ o ∈ db.items, o.id = id ∧ o.marketId = log.marketId
  failureMarket : ∀ f ∈ db.failures, ∃ market ∈ db.markets, market.id = f.marketId

section Runs

variable {lib : PyLib} {d₀ : Data} {w w' : NewsWorld}

theorem market_later (run : Steps (newsSys lib serviceTask) w w') {m : Uuid}
    (h : ∃ market ∈ w.data.db.markets, market.id = m) : ∃ market ∈ w'.data.db.markets, market.id = m := by
  obtain ⟨market, hm, rfl⟩ := h
  obtain ⟨row, hr, same⟩ := List.mem_map.mp (markets_accrue.steps run (List.mem_map_of_mem hm))
  exact ⟨row, hr, congrArg Prod.fst same⟩

theorem item_later (run : Steps (newsSys lib serviceTask) w w') {o : NewsItem} (ho : o ∈ w.data.db.items) :
    ∃ row ∈ w'.data.db.items, row.id = o.id ∧ row.marketId = o.marketId ∧ row.batchId = o.batchId := by
  obtain ⟨row, hr, same⟩ := List.mem_map.mp (items_accrue.steps run (List.mem_map_of_mem ho))
  exact ⟨row, hr, deliver_columns same⟩

theorem batch_market (h₀ : d₀.Initial) (reach : Reachable (newsSys lib serviceTask) d₀ w) :
    ∀ row ∈ w.data.db.batches, ∃ market ∈ w.data.db.markets, market.id = row.marketId := by
  intro row mem
  obtain ⟨i, job, v, tr, v', p, before, e, after, x, _, run, rest, ended, split, stages, added⟩ :=
    batches_accrue.origin (y := row.key) (fun _ => rfl) reach (by simp [h₀.batches]) (List.mem_map_of_mem mem)
  refine market_later rest ?_
  have refers := run_refers run split
  cases x with
  | insertBatch row' =>
    have own : row'.marketId = row.marketId := congrArg Prod.snd (Option.some.inj added)
    obtain ⟨s, r, l, d⟩ := e
    rcases stages with writes | ⟨row₁, watermark, same, rfl⟩
    · cases writes with
      | opened m n watermark u t => exact own ▸ Found.row refers run split ended
      | assigned => exact refers.elim
    · obtain rfl := Write.insertBatch.inj same
      exact own ▸ Found.row refers run split ended
  | _ => cases added

theorem item_market (h₀ : d₀.Initial) (reach : Reachable (newsSys lib serviceTask) d₀ w) :
    ∀ o ∈ w.data.db.items, ∃ market ∈ w.data.db.markets, market.id = o.marketId := by
  intro o mem
  obtain ⟨i, job, v, tr, v', p, before, e, after, x, _, run, rest, ended, split, stages, added⟩ :=
    items_accrue.origin (y := o.deliver) (fun _ => rfl) reach (by simp [Database.tables, h₀.items])
      (List.mem_map_of_mem mem)
  refine market_later rest ?_
  have refers := run_refers run split
  cases x with
  | insertItem row =>
    obtain ⟨_, own, _⟩ := deliver_columns (Option.some.inj added)
    obtain ⟨s, r, l, d⟩ := e
    rcases stages with writes | ⟨_, _, other, _⟩
    · cases writes with
      | item row u t => exact own ▸ Found.row refers run split ended
      | assigned => exact refers.elim
    · cases other
  | _ => cases added

theorem slot_item (h₀ : d₀.Initial) (reach : Reachable (newsSys lib serviceTask) d₀ w) :
    ∀ c ∈ w.data.db.candidates, ∀ id ∈ c.newsItemId, ∃ o ∈ w.data.db.items, o.id = id ∧ o.batchId = some c.batchId := by
  intro c mem id named
  obtain ⟨i, job, v, tr, v', p, before, e, after, x, _, run, rest, ended, split, stages, added⟩ :=
    slots_accrue.origin (fun _ => rfl) reach (by simp [h₀.candidates]) mem
  have refers := run_refers run split
  have stored : ∃ o, Inserts id o (before.map Event.said) ∧ o.batchId = some c.batchId := by
    cases x with
    | insertCandidate row =>
      obtain rfl := Option.some.inj added
      obtain ⟨s, r, l, d⟩ := e
      rcases stages with writes | ⟨_, _, other, _⟩
      · cases writes with
        | candidate => exact refers id named
        | assigned => exact refers.elim
      · cases other
    | _ => cases added
  obtain ⟨o, stored, batch⟩ := stored
  obtain ⟨row, hr, key, _, own⟩ := stored.row run split ended
  obtain ⟨row', hr', key', _, own'⟩ := item_later rest hr
  exact ⟨row', hr', key'.trans key, own'.trans (own.trans batch)⟩

theorem log_items (h₀ : d₀.Initial) (reach : Reachable (newsSys lib serviceTask) d₀ w) :
    ∀ log ∈ w.data.db.logs, log.newsItemIds ≠ [] ∧
      ∀ id ∈ log.newsItemIds, ∃ o ∈ w.data.db.items, o.id = id ∧ o.marketId = log.marketId := by
  intro log mem
  obtain ⟨i, job, v, tr, v', p, before, e, after, x, _, run, rest, ended, split, stages, added⟩ :=
    logs_accrue.origin (y := log.head) (fun _ => rfl) reach (by simp [Database.tables, h₀.logs]) (List.mem_map_of_mem mem)
  have refers := run_refers run split
  have lines : ∃ b, Lines log.marketId b log.newsItemIds (before.map Event.said) := by
    cases x with
    | insertLog row =>
      have head : row.head = log.head := Option.some.inj added
      obtain ⟨s, r, l, d⟩ := e
      rcases stages with writes | ⟨_, _, other, _⟩
      · cases writes with
        | log m b ids u t =>
          have market : m = log.marketId := congrArg LogHead.marketId head
          have listed : ids = log.newsItemIds := congrArg LogHead.newsItemIds head
          exact ⟨b, market ▸ listed ▸ refers⟩
        | assigned => exact refers.elim
      · cases other
    | _ => cases added
  obtain ⟨b, lines⟩ := lines
  obtain ⟨some, rows⟩ := lines.rows run split ended
  refine ⟨some, fun id hid => ?_⟩
  obtain ⟨row, hr, key, own⟩ := rows id hid
  obtain ⟨row', hr', key', own', _⟩ := item_later rest hr
  exact ⟨row', hr', key'.trans key, own'.trans own⟩

theorem failure_market (none : d₀.db.failures = []) (reach : Reachable (newsSys lib serviceTask) d₀ w) :
    ∀ f ∈ w.data.db.failures, ∃ market ∈ w.data.db.markets, market.id = f.marketId := by
  intro f mem
  obtain ⟨i, job, v, tr, v', p, before, e, after, x, _, run, rest, ended, split, stages, added⟩ :=
    failures_accrue.origin (fun _ => rfl) reach (by simp [none]) mem
  refine market_later rest ?_
  have refers := run_refers run split
  cases x with
  | insertFailure row =>
    obtain rfl := Option.some.inj added
    obtain ⟨s, r, l, d⟩ := e
    rcases stages with writes | ⟨_, _, other, _⟩
    · cases writes with
      | assigned => exact Found.row refers run split ended
    · cases other
  | _ => cases added

/-- No run of the service leaves a reference without its row, or one into another market. -/
theorem referential_integrity (lib : PyLib) (h₀ : d₀.Initial) (none : d₀.db.failures = [])
    (reach : Reachable (newsSys lib serviceTask) d₀ w) : w.data.db.Integral := by
  have rows := (reachable_inv h₀ (service_steps reach)).rows
  have items := item_market h₀ reach
  have logs := log_items h₀ reach
  exact {
    batchMarket := batch_market h₀ reach
    itemMarket := items
    itemBatch := fun o ho b hb => rows.itemBatch o.deliver (List.mem_map_of_mem ho) b hb
    slotBatch := fun c hc => rows.candidateBatch _ (List.mem_map_of_mem hc)
    slotItem := slot_item h₀ reach
    logMarket := fun log hl => by
      obtain ⟨some, stored⟩ := logs log hl
      obtain ⟨id, hid⟩ := List.exists_mem_of_ne_nil _ some
      obtain ⟨o, ho, _, own⟩ := stored id hid
      exact own ▸ items o ho
    logItems := logs
    failureMarket := failure_market none reach }

end Runs

/-- A candidate without a batch is stored with a log of its own. -/
def storedAlone : List NewsMove :=
  [.start (.call 1) (.job (.processCandidate 1 (sampleCandidate "a") none), sampleSettings)] ++
  execs sampleLib (sampleOracle "t") (.call 1) 13

theorem referential_integrity_sample : ∃ w : NewsWorld, w.data.db.items.length = 1 ∧
    w.data.db.logs.length = 1 ∧ w.data.db.Integral := by
  have run : ((newsSys sampleLib serviceTask).run sampleWorld storedAlone).map (fun w =>
      w.data.db.items.length == 1 && w.data.db.logs.length == 1) = some true := by
    decide +kernel
  obtain ⟨w, reach, hp⟩ := Sys.run_reaches run
  simp only [Bool.and_eq_true, beq_iff_eq] at hp
  exact ⟨w, hp.1, hp.2, referential_integrity sampleLib sampleData_initial rfl reach⟩

end NewsNotifier
