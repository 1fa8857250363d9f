import NewsNotifier.CycleRuns

namespace NewsNotifier

open Interleaving

/-- A delivery under the key of a batch lists items of that batch only. -/
def Tables.OwnItems (t : Tables) : Prop :=
  ∀ log ∈ t.logs, ∀ row ∈ t.batches, log.batchId = row.id →
    ∀ o ∈ t.items, o.id ∈ log.newsItemIds → o.batchId = some row.id

namespace Tables.OwnItems

variable {t : Tables} {row : NewsBatch}

theorem addItem (h : t.OwnItems) {item : Option NewsItem} (unlisted : ∀ o ∈ item, o.id ∉ t.listed) :
    (t.addItem item).OwnItems := by
  intro log hl r hr key o ho hid
  rcases List.mem_append.mp ho with ho | ho
  · exact h log hl r hr key o ho hid
  · exact absurd (List.mem_flatMap.mpr ⟨log, hl, hid⟩) (unlisted o (by simpa using ho))

theorem setBatch (h : t.OwnItems) (b : Uuid) (n : Nat) (s : BatchStatus) : (t.setBatch b n s).OwnItems := by
  intro log hl r hr key o ho hid
  obtain ⟨r', hr', rfl⟩ := mem_setBatch.mp hr
  have same : (if r'.id = b then r'.set n s else r').id = r'.id := by split <;> rfl
  rw [same] at key ⊢
  exact h log hl r' hr' key o ho hid

theorem openBatch (h : t.OwnItems) (fresh : t.Unused row.id) :
    Tables.OwnItems { t with batches := t.batches ++ [row] } := by
  intro log hl r hr key
  rcases List.mem_append.mp hr with hr | hr
  · exact h log hl r hr key
  · rw [List.mem_singleton.mp hr] at key
    exact absurd key (fresh.key log hl)

theorem addLog (h : t.OwnItems) {log : LogHead} (own : ∀ r ∈ t.batches, log.batchId = r.id →
    ∀ o ∈ t.items, o.id ∈ log.newsItemIds → o.batchId = some r.id) : (t.addLog (some log)).OwnItems := by
  intro l hl
  rcases List.mem_append.mp hl with hl | hl
  · exact h l hl
  · rw [show l = log by simpa using hl]
    exact own

end Tables.OwnItems

/-- A close lists the items of its own batch. -/
theorem Gathers.ownItems {x : Ledger} {i : JobId} {t : Tables} {row : NewsBatch} {log : Option LogHead}
    {drawn : List Uuid} (g : Gathers x i t row log) (h : t.OwnItems) (rows : Rows drawn t) (n : Nat) :
    ((t.setBatch row.id n .closed).addLog log).OwnItems := by
  cases log with
  | none =>
    rw [Tables.addLog_none]
    exact h.setBatch row.id n .closed
  | some log =>
    refine (h.setBatch row.id n .closed).addLog fun r _ key o ho hid => ?_
    obtain ⟨o', ho', e, _, hb⟩ := g.mem_ids.mp hid
    rw [← key, g.2.2.2.1, ← rows.item_unique ho' ho e, hb]

theorem Commit.ownItems {i : JobId} {x : Ledger} {t : Tables} (h : Commit plainPolicy i x t)
    (hx : x.Inv plainPolicy) (own : x.tables.OwnItems) : t.OwnItems := by
  have unlisted : ∀ {o : NewsItem}, x.tables.Unused o.id → o.id ∉ x.tables.listed := by
    intro o unused listed
    obtain ⟨o', ho', e, _⟩ := (hx.listing True.intro).stored o.id listed
    exact unused.item o' ho' e
  have entered : ∀ {m b : Uuid} {item : Option NewsItem}, Resolves plainPolicy x i m b item →
      (x.tables.addItem item).OwnItems :=
    fun enter => own.addItem fun o ho => unlisted (enter.store o ho).2.2.unused
  cases h with
  | nothing => exact own
  | opened row _ unused _ _ _ => exact own.openBatch unused
  | alone item log store batch solo apart =>
    refine (own.addItem fun o ho => ?_).addLog fun r hr key => absurd key.symm (solo.unusedKey.batch r hr)
    obtain rfl : item = o := by simpa using ho
    exact unlisted store.unused
  | solo log id solo stray => exact own.addLog fun r hr key => absurd key.symm (solo.unusedKey.batch r hr)
  | repeated m b c item enter => exact entered enter
  | late m b c item enter => exact entered enter
  | counted c row item enter =>
    exact Tables.OwnItems.setBatch (t := (x.tables.addItem item).addCandidate row.id c) (entered enter) _ _ _
  | closed c row item log enter new mem status last gather =>
    have rows := (enter.rows hx ⟨row, mem, rfl, rfl⟩).addCandidate c ⟨row, mem, rfl⟩
    exact (gather.addCandidate row.id c).ownItems (entered enter) rows _
  | forced row log locked mem status gather => exact gather.ownItems own hx.rows _

theorem Act.ownItems {a : Option JobId} {x y : Ledger} (h : Act plainPolicy a x y)
    (hx : x.Inv plainPolicy) (own : x.tables.OwnItems) : y.tables.OwnItems := by
  cases h with
  | stay | lock | draw | post => exact own
  | commit hc => exact hc.ownItems hx own

theorem cycleTask_governs (lib : PyLib) :
    (ledgerContract plainPolicy).Governs (newsSys lib cycleTask) := by
  refine newsSys_governs fun i task cfg d ok => ?_
  simp only [cycleTask, Bool.and_eq_true] at ok
  exact ⟨⟨rfl, fun _ _ => True.intro, fun _ _ _ _ => True.intro⟩, fun _ => ok.1⟩

/-- The dates of a batch: its items, and the items of its delivery, are dated no earlier than `t`,
where they are dated. -/
structure BatchDated (db : Database) (b : Uuid) (t : Time) : Prop where
  items : ∀ o ∈ db.items, o.batchId = some b → ∀ x, o.publishedAt = some x → t ≤ x
  delivery : ∀ row ∈ db.batches, row.id = b → ∀ log ∈ db.logs, log.batchId = b →
    ∀ o ∈ db.items, o.id ∈ log.newsItemIds → ∀ x, o.publishedAt = some x → t ≤ x

/-- The runs of the ledger keep a batch's delivery to its own items. -/
theorem ownItems_reachable {lib : PyLib} {d₀ : Data} (h₀ : d₀.Initial) {w : NewsWorld}
    (h : Reachable ((newsSys lib cycleTask).restrict (pagesNotOlder lib)) d₀ w) :
    w.data.ledger.tables.OwnItems := by
  have governs : (ledgerContract plainPolicy).Governs
      ((newsSys lib cycleTask).restrict (pagesNotOlder lib)) :=
    (cycleTask_governs lib).restrict (fun _ h => h) (fun _ _ _ h => h) (fun _ h => h)
      (fun _ _ _ hi ha => Act.inv ha hi) (fun _ _ _ _ _ _ _ _ _ _ ha => ha)
      (fun _ _ _ _ _ hi hs => ((cycleTask_governs lib).start hs hi).1)
      (fun _ _ hi => (cycleTask_governs lib).stop hi) fun _ _ _ hi he => (cycleTask_governs lib).env he hi
  have start : (ledgerContract plainPolicy).Sound
      ((newsSys lib cycleTask).restrict (pagesNotOlder lib)) ⟨d₀, fun _ => none⟩ := ⟨h₀.inv, by simp⟩
  have kept := (governs.steps_ind (R := fun d d' => d.ledger.tables.OwnItems → d'.ledger.tables.OwnItems)
    (fun own => own) (fun h h' own => h' (h own)) (fun hi act => Act.ownItems act hi) start h).2
  exact kept (by simp [Tables.OwnItems, Data.ledger, Database.tables, h₀.logs])

/-- Cross-batch chronology, in the runs in which no candidate without a usable search date turns
out to have a page older than its cycle's watermark: no item of the cycle's batch, and none in its
delivery, is older. A candidate that does is stored with the page's date. -/
theorem cycle_chronology (lib : PyLib) {d₀ : Data} (h₀ : d₀.Initial) :
    (∀ w : NewsWorld, Reachable ((newsSys lib cycleTask).restrict (pagesNotOlder lib)) d₀ w →
      ∀ b t, (b, some t) ∈ w.data.cycles → BatchDated w.data.db b t) ∧
    ∀ cfg market candidate b scraped x, parsePublishedAt lib candidate.publishedAt = .ok none →
      parsePublishedAt lib scraped.publishedAt = .ok (some x) →
      (extractAndStore lib cfg market candidate (some b) scraped).Each (fun s => ∀ row,
        s = .insertItem row → row.batchId = some b ∧ row.publishedAt = some x) fun _ => True := by
  constructor
  · intro w h b t cycle
    have init : d₀.Chronological lib := by
      refine ⟨?_, ?_, ?_⟩ <;> simp [h₀.cycles, h₀.items, h₀.accepted]
    have chron : w.data.Chronological lib := ((chronicle_governs lib).sound init h).data
    have items : ∀ o ∈ w.data.db.items, o.batchId = some b → ∀ x, o.publishedAt = some x → t ≤ x :=
      fun o ho hb => (chron.items o ho b hb).2 t cycle
    refine ⟨items, ?_⟩
    rintro row hr rfl log hl key o ho hid
    refine items o ho ?_
    exact ownItems_reachable h₀ h log.head (List.mem_map_of_mem hl) row hr key o.deliver
      (List.mem_map_of_mem ho) hid
  · intro cfg market candidate b scraped x search page
    have reads : ∀ s : Stmt, s.reading market.id → ∀ row, s = .insertItem row →
        row.batchId = some b ∧ row.publishedAt = some x := by
      rintro s hs row rfl
      exact hs.elim
    have does : ∀ s : Stmt, s.batching market.id → ∀ row, s = .insertItem row →
        row.batchId = some b ∧ row.publishedAt = some x := by
      rintro s hs row rfl
      exact hs.elim
    refine extractAndStore_does (fun _ => True.intro) reads does (fun _ _ _ _ _ h => by simp at h) ?_
    rintro row h _ _ ⟨rfl⟩
    obtain ⟨raw, rfl, date⟩ := h.date
    have own : itemDate lib candidate.publishedAt scraped.publishedAt = .ok (some x) := by
      rw [itemDate, search]
      exact page
    exact ⟨h.batch, Except.ok.inj (date.symm.trans own)⟩

/-- One search result without a date, whose page bears this one. -/
def undatedOracle (page : RawDate) : Oracle
  | .searchSources _ _ => some [some [⟨some "a", "t", "", .none, "s"⟩]]
  | .scrapeUrl url _ _ => some (.ok (some ⟨url, "text", true, page, none⟩))
  | s => sampleOracle "t" s

/-- The sample market, after the delivery of an article dated 100. -/
def watermarkedData : Data :=
  { sampleData with db := { sampleData.db with
      markets := [{ sampleMarket with maxDeliveredPublishedAt := some 100 }] } }

theorem watermarkedData_initial : watermarkedData.Initial := by
  refine ⟨rfl, rfl, rfl, rfl, rfl, rfl, rfl, rfl, by decide, by decide, by decide, rfl, rfl⟩

/-- A cycle with one candidate, which is then stored and ends its batch. -/
def oneCycle (page : RawDate) : List NewsMove :=
  [.start (.call 1) (.job (.processMarket 1), sampleSettings)] ++
  execs sampleLib (undatedOracle page) (.call 1) 14 ++
  [.start (.processCandidate 1 "a")
    (.job (.processCandidate 1 ⟨"a", "t", "", .none, "s", "a"⟩ (some 2)), sampleSettings)] ++
  execs sampleLib (undatedOracle page) (.processCandidate 1 "a") 16

theorem cycle_chronology_sample : ∃ w : NewsWorld,
    w.data.db.items.map (fun o => (o.batchId, o.publishedAt)) = [(some 2, some 150)] ∧
    (2, some 100) ∈ w.data.cycles ∧ BatchDated w.data.db 2 100 := by
  have run : (((newsSys sampleLib cycleTask).restrict (pagesNotOlder sampleLib)).run
      ⟨watermarkedData, fun _ => none⟩ (oneCycle (.datetime ⟨150, some 0⟩))).map (fun w =>
        w.data.db.items.map (fun o => (o.batchId, o.publishedAt)) == [(some 2, some 150)] &&
          decide ((2, some 100) ∈ w.data.cycles)) = some true := by
    decide +kernel
  obtain ⟨w, steps, hp⟩ := Sys.run_reaches run
  simp only [Bool.and_eq_true, beq_iff_eq, decide_eq_true_eq] at hp
  exact ⟨w, hp.1, hp.2, (cycle_chronology sampleLib watermarkedData_initial).1 w steps 2 100 hp.2⟩

/-- The same cycle, where the page is dated 50. -/
theorem stale_page : ∃ w : NewsWorld, Reachable (newsSys sampleLib cycleTask) watermarkedData w ∧
    (2, some 100) ∈ w.data.cycles ∧ ∃ o ∈ w.data.db.items, o.batchId = some 2 ∧ o.publishedAt = some 50 ∧
      ∃ log ∈ w.data.db.logs, log.batchId = 2 ∧ o.id ∈ log.newsItemIds := by
  have run : ((newsSys sampleLib cycleTask).run ⟨watermarkedData, fun _ => none⟩
      (oneCycle (.datetime ⟨50, some 0⟩))).map (fun w => decide ((2, some 100) ∈ w.data.cycles) &&
        w.data.db.items.any fun o => o.batchId = some 2 && o.publishedAt = some 50 &&
          w.data.db.logs.any fun log => log.batchId = 2 && log.newsItemIds.contains o.id) = some true := by
    decide +kernel
  obtain ⟨w, steps, hp⟩ := Sys.run_reaches run
  simp only [Bool.and_eq_true, decide_eq_true_eq, List.any_eq_true, List.contains_iff_mem] at hp
  obtain ⟨cycle, o, ho, ⟨hb, date⟩, log, hl, key, hid⟩ := hp
  exact ⟨w, steps, cycle, o, ho, hb, date, log, hl, key, hid⟩

end NewsNotifier
