import NewsNotifier.DeliveryLedger

namespace NewsNotifier

open KeyedRows

theorem NewsBatch.set_id (n : Nat) (s : BatchStatus) (row : NewsBatch) :
    (row.set n s).id = row.id := rfl

namespace Tables

variable {t : Tables} {b m u : Uuid} {row : NewsBatch} {n : Nat} {s : BatchStatus}

@[simp] theorem addItem_batches (t : Tables) (o : Option NewsItem) :
    (t.addItem o).batches = t.batches := rfl

@[simp] theorem addItem_candidates (t : Tables) (o : Option NewsItem) :
    (t.addItem o).candidates = t.candidates := rfl

@[simp] theorem addItem_logs (t : Tables) (o : Option NewsItem) :
    (t.addItem o).logs = t.logs := rfl

@[simp] theorem addItem_none (t : Tables) : t.addItem none = t := by
  simp [addItem]

@[simp] theorem addLog_none (t : Tables) : t.addLog none = t := by
  simp [addLog]

theorem listed_addLog (t : Tables) (log : LogHead) :
    (t.addLog (some log)).listed = t.listed ++ log.newsItemIds := by
  simp [listed, addLog]

theorem mem_setBatch {r : NewsBatch} : r ∈ (t.setBatch b n s).batches ↔
    ∃ row ∈ t.batches, r = if row.id = b then row.set n s else row :=
  mem_update

theorem mem_setBatch_of_ne {r : NewsBatch} (h : r.id ≠ b) :
    r ∈ (t.setBatch b n s).batches ↔ r ∈ t.batches :=
  mem_update_of_ne (NewsBatch.set_id n s) h

theorem ids_setBatch (t : Tables) (b : Uuid) (n : Nat) (s : BatchStatus) :
    (t.setBatch b n s).batches.map (·.id) = t.batches.map (·.id) :=
  map_update (NewsBatch.set_id n s) t.batches

theorem HasBatch.setBatch (h : t.HasBatch u m) : (t.setBatch b n s).HasBatch u m := by
  obtain ⟨row, hr, hid, hm⟩ := h
  refine ⟨_, mem_setBatch.mpr ⟨row, hr, rfl⟩, ?_, ?_⟩
  · split <;> simpa [NewsBatch.set] using hid
  · split <;> simpa [NewsBatch.set] using hm

/-- Only an open row is ever updated, so a closed batch stays as it is. -/
theorem Closed.setBatch (h : t.Closed u) (mem : row ∈ t.batches) (hs : row.status = .opened) :
    (t.setBatch row.id n s).Closed u := by
  have ne : u ≠ row.id := by
    rintro rfl
    simp [h.2 row mem rfl] at hs
  obtain ⟨r, hr, hid⟩ := h.1
  refine ⟨⟨r, (mem_setBatch_of_ne (by rw [hid]; exact ne)).mpr hr, hid⟩, ?_⟩
  intro r' hr' hid'
  exact h.2 r' ((mem_setBatch_of_ne (by rw [hid']; exact ne)).mp hr') hid'

theorem Closed.of_setBatch (h : ∃ row ∈ t.batches, row.id = b) :
    (t.setBatch b n .closed).Closed b := by
  obtain ⟨row, hr, hid⟩ := h
  refine ⟨⟨row.set n .closed, mem_setBatch.mpr ⟨row, hr, by simp [hid]⟩, hid⟩, ?_⟩
  intro r hr' hid'
  obtain ⟨row', _, rfl⟩ := mem_setBatch.mp hr'
  by_cases hb : row'.id = b
  · simp [hb, NewsBatch.set]
  · simp [hb] at hid'

end Tables

/-- Primary keys, foreign keys, and that a delivery of a batch means that the batch is closed. -/
structure Rows (drawn : List Uuid) (t : Tables) : Prop where
  batchIds : (t.batches.map (·.id)).Nodup
  itemIds : (t.items.map (·.id)).Nodup
  logIds : (t.logs.map (·.id)).Nodup
  logKeys : (t.logs.map (·.batchId)).Nodup
  batchDrawn : ∀ row ∈ t.batches, row.id ∈ drawn
  itemDrawn : ∀ o ∈ t.items, o.id ∈ drawn
  logDrawn : ∀ log ∈ t.logs, log.id ∈ drawn ∧ log.batchId ∈ drawn
  itemBatch : ∀ o ∈ t.items, ∀ b, o.batchId = some b → t.HasBatch b o.marketId
  candidateBatch : ∀ c ∈ t.candidates, ∃ row ∈ t.batches, row.id = c.1
  keyClosed : ∀ log ∈ t.logs, ∀ row ∈ t.batches, log.batchId = row.id → row.status = .closed

namespace Rows

variable {drawn : List Uuid} {t : Tables} {row : NewsBatch} {item : NewsItem} {log : LogHead}
  {n : Nat} {s : BatchStatus}

theorem unique (h : Rows drawn t) {r r' : NewsBatch} (hr : r ∈ t.batches) (hr' : r' ∈ t.batches)
    (e : r.id = r'.id) : r = r' :=
  List.inj_on_of_nodup_map h.batchIds hr hr' e

theorem item_unique (h : Rows drawn t) {o o' : NewsItem} (ho : o ∈ t.items) (ho' : o' ∈ t.items)
    (e : o.id = o'.id) : o = o' :=
  List.inj_on_of_nodup_map h.itemIds ho ho' e

theorem mono {drawn' : List Uuid} (h : Rows drawn t) (sub : ∀ u ∈ drawn, u ∈ drawn') :
    Rows drawn' t :=
  { h with
    batchDrawn := fun r hr => sub _ (h.batchDrawn r hr)
    itemDrawn := fun o ho => sub _ (h.itemDrawn o ho)
    logDrawn := fun l hl => ⟨sub _ (h.logDrawn l hl).1, sub _ (h.logDrawn l hl).2⟩ }

theorem addItem (h : Rows drawn t) (fresh : ∀ o ∈ t.items, o.id ≠ item.id)
    (drew : item.id ∈ drawn) (batch : ∀ b, item.batchId = some b → t.HasBatch b item.marketId) :
    Rows drawn (t.addItem (some item)) where
  batchIds := h.batchIds
  itemIds := by
    simp only [Tables.addItem, Option.toList_some, List.map_append, List.map_cons, List.map_nil]
    refine List.nodup_append.mpr ⟨h.itemIds, by simp, ?_⟩
    simpa using fresh
  logIds := h.logIds
  logKeys := h.logKeys
  batchDrawn := h.batchDrawn
  itemDrawn := by
    intro o ho
    rcases List.mem_append.mp ho with ho | ho
    · exact h.itemDrawn o ho
    · simp only [Option.toList_some, List.mem_singleton] at ho
      exact ho ▸ drew
  logDrawn := h.logDrawn
  itemBatch := by
    intro o ho
    rcases List.mem_append.mp ho with ho | ho
    · exact h.itemBatch o ho
    · simp only [Option.toList_some, List.mem_singleton] at ho
      exact ho ▸ batch
  candidateBatch := h.candidateBatch
  keyClosed := h.keyClosed

theorem addCandidate (h : Rows drawn t) {b : Uuid} (c : String) (batch : ∃ row ∈ t.batches, row.id = b) :
    Rows drawn (t.addCandidate b c) :=
  { h with
    candidateBatch := by
      intro e he
      rcases List.mem_append.mp he with he | he
      · exact h.candidateBatch e he
      · simp only [List.mem_singleton] at he
        exact he ▸ batch }

theorem setBatch (h : Rows drawn t) (mem : row ∈ t.batches) (status : row.status = .opened) :
    Rows drawn (t.setBatch row.id n s) where
  batchIds := by
    rw [Tables.ids_setBatch]
    exact h.batchIds
  itemIds := h.itemIds
  logIds := h.logIds
  logKeys := h.logKeys
  batchDrawn := by
    intro r hr
    obtain ⟨row', hr', rfl⟩ := Tables.mem_setBatch.mp hr
    have := h.batchDrawn row' hr'
    split <;> simpa [NewsBatch.set] using this
  itemDrawn := h.itemDrawn
  logDrawn := h.logDrawn
  itemBatch := fun o ho b hb => (h.itemBatch o ho b hb).setBatch
  candidateBatch := by
    intro c hc
    obtain ⟨r, hr, hid⟩ := h.candidateBatch c hc
    refine ⟨_, Tables.mem_setBatch.mpr ⟨r, hr, rfl⟩, ?_⟩
    split <;> simpa [NewsBatch.set] using hid
  keyClosed := by
    intro log hl r hr e
    obtain ⟨row', hr', rfl⟩ := Tables.mem_setBatch.mp hr
    by_cases hid : row'.id = row.id
    · simp only [hid, if_true, NewsBatch.set] at e
      simp [h.keyClosed log hl row mem e] at status
    · simp only [hid, if_false] at e ⊢
      exact h.keyClosed log hl row' hr' e

theorem addLog (h : Rows drawn t) (freshId : ∀ l ∈ t.logs, l.id ≠ log.id)
    (freshKey : ∀ l ∈ t.logs, l.batchId ≠ log.batchId)
    (drew : log.id ∈ drawn ∧ log.batchId ∈ drawn)
    (closed : ∀ r ∈ t.batches, log.batchId = r.id → r.status = .closed) :
    Rows drawn (t.addLog (some log)) where
  batchIds := h.batchIds
  itemIds := h.itemIds
  logIds := by
    simp only [Tables.addLog, Option.toList_some, List.map_append, List.map_cons, List.map_nil]
    refine List.nodup_append.mpr ⟨h.logIds, by simp, ?_⟩
    simpa using freshId
  logKeys := by
    simp only [Tables.addLog, Option.toList_some, List.map_append, List.map_cons, List.map_nil]
    refine List.nodup_append.mpr ⟨h.logKeys, by simp, ?_⟩
    simpa using freshKey
  batchDrawn := h.batchDrawn
  itemDrawn := h.itemDrawn
  logDrawn := by
    intro l hl
    rcases List.mem_append.mp hl with hl | hl
    · exact h.logDrawn l hl
    · simp only [Option.toList_some, List.mem_singleton] at hl
      exact hl ▸ drew
  itemBatch := h.itemBatch
  candidateBatch := h.candidateBatch
  keyClosed := by
    intro l hl
    rcases List.mem_append.mp hl with hl | hl
    · exact h.keyClosed l hl
    · simp only [Option.toList_some, List.mem_singleton] at hl
      exact hl ▸ closed

theorem openBatch (h : Rows drawn t) (fresh : t.Unused row.id) (drew : row.id ∈ drawn) :
    Rows drawn { t with batches := t.batches ++ [row] } where
  batchIds := by
    simp only [List.map_append, List.map_cons, List.map_nil]
    refine List.nodup_append.mpr ⟨h.batchIds, by simp, ?_⟩
    simpa using fresh.batch
  itemIds := h.itemIds
  logIds := h.logIds
  logKeys := h.logKeys
  batchDrawn := by
    intro r hr
    rcases List.mem_append.mp hr with hr | hr
    · exact h.batchDrawn r hr
    · exact List.mem_singleton.mp hr ▸ drew
  itemDrawn := h.itemDrawn
  logDrawn := h.logDrawn
  itemBatch := by
    intro o ho b hb
    obtain ⟨r, hr, hid⟩ := h.itemBatch o ho b hb
    exact ⟨r, List.mem_append_left _ hr, hid⟩
  candidateBatch := by
    intro c hc
    obtain ⟨r, hr, hid⟩ := h.candidateBatch c hc
    exact ⟨r, List.mem_append_left _ hr, hid⟩
  keyClosed := by
    intro l hl r hr e
    rcases List.mem_append.mp hr with hr | hr
    · exact h.keyClosed l hl r hr e
    · rw [List.mem_singleton.mp hr] at e
      exact absurd e (fresh.key l hl)

end Rows

/-- The count of an open batch is that of its ledger rows, and is not complete. -/
def Counts (t : Tables) : Prop :=
  ∀ row ∈ t.batches, row.resolvedCount ≤ row.expectedCount ∧
    (row.status = .opened → row.resolvedCount = t.counted row.id ∧
      row.resolvedCount < row.expectedCount)

namespace Counts

variable {drawn : List Uuid} {t : Tables} {row : NewsBatch} {n : Nat} {c : String}

theorem counted_addCandidate (t : Tables) (b u : Uuid) (c : String) :
    (t.addCandidate b c).counted u = t.counted u + if b = u then 1 else 0 := by
  by_cases h : b = u <;> simp [Tables.counted, Tables.addCandidate, List.filter_append, h]

theorem addCandidate_closed (h : Counts t) {b : Uuid} (hb : t.Closed b) :
    Counts (t.addCandidate b c) := by
  intro row hr
  refine ⟨(h row hr).1, ?_⟩
  intro hs
  have ne : b ≠ row.id := by
    rintro rfl
    simp [hb.2 row hr rfl] at hs
  simpa [counted_addCandidate, ne] using (h row hr).2 hs

/-- One step of the count: the ledger row and the update go together. -/
theorem count (h : Counts t) (hr : Rows drawn t) (mem : row ∈ t.batches) (status : row.status = .opened)
    {s : BatchStatus} (open_ : s = .opened → row.resolvedCount + 1 < row.expectedCount) :
    Counts ((t.addCandidate row.id c).setBatch row.id (row.resolvedCount + 1) s) := by
  intro r hmem
  obtain ⟨row', hr', rfl⟩ := Tables.mem_setBatch.mp hmem
  obtain ⟨count, less⟩ := (h row mem).2 status
  by_cases hid : row'.id = row.id
  · obtain rfl := hr.unique hr' mem hid
    simp only [if_true, NewsBatch.set]
    refine ⟨less, fun hs => ⟨?_, open_ hs⟩⟩
    change _ = (t.addCandidate row'.id c).counted row'.id
    simp [counted_addCandidate, count]
  · simp only [hid, if_false]
    refine ⟨(h row' hr').1, fun hs => ?_⟩
    change _ = (t.addCandidate row.id c).counted row'.id ∧ _
    simpa [counted_addCandidate, Ne.symm hid] using (h row' hr').2 hs

theorem close (h : Counts t) (hr : Rows drawn t) (mem : row ∈ t.batches) :
    Counts (t.setBatch row.id row.resolvedCount .closed) := by
  intro r hmem
  obtain ⟨row', hr', rfl⟩ := Tables.mem_setBatch.mp hmem
  by_cases hid : row'.id = row.id
  · obtain rfl := hr.unique hr' mem hid
    simpa [NewsBatch.set] using (h row' mem).1
  · simp only [hid, if_false]
    exact h row' hr'

theorem openBatch (h : Counts t) (hr : Rows drawn t) (fresh : t.Unused row.id)
    (count : row.resolvedCount = 0) (expected : 0 < row.expectedCount) :
    Counts { t with batches := t.batches ++ [row] } := by
  intro r hmem
  rcases List.mem_append.mp hmem with hmem | hmem
  · exact h r hmem
  · obtain rfl := List.mem_singleton.mp hmem
    have none_counted : t.counted r.id = 0 := by
      simp only [Tables.counted, List.length_eq_zero_iff, List.filter_eq_nil_iff]
      intro c hc
      obtain ⟨row', hr', hid⟩ := hr.candidateBatch c hc
      have := fresh.batch row' hr'
      simpa [hid] using this
    refine ⟨by omega, fun _ => ⟨?_, by omega⟩⟩
    change _ = t.counted r.id
    omega

end Counts

/-- No item is listed twice, and what is listed is stored and in no open batch. -/
structure Listing (t : Tables) : Prop where
  nodup : t.listed.Nodup
  stored : ∀ id ∈ t.listed, ∃ o ∈ t.items, o.id = id ∧ ∀ b, o.batchId = some b → t.Closed b

namespace Listing

variable {drawn : List Uuid} {t : Tables} {row : NewsBatch}

theorem addItem (h : Listing t) (item : Option NewsItem) : Listing (t.addItem item) where
  nodup := h.nodup
  stored := by
    intro id hid
    obtain ⟨o, ho, rest⟩ := h.stored id hid
    exact ⟨o, List.mem_append_left _ ho, rest⟩

theorem setBatch (h : Listing t) (mem : row ∈ t.batches) (status : row.status = .opened) {n : Nat}
    {s : BatchStatus} : Listing (t.setBatch row.id n s) where
  nodup := h.nodup
  stored := by
    intro id hid
    obtain ⟨o, ho, e, closed⟩ := h.stored id hid
    exact ⟨o, ho, e, fun b hb => (closed b hb).setBatch mem status⟩

theorem openBatch (h : Listing t) (fresh : t.Unused row.id) :
    Listing { t with batches := t.batches ++ [row] } where
  nodup := h.nodup
  stored := by
    intro id hid
    obtain ⟨o, ho, e, closed⟩ := h.stored id hid
    refine ⟨o, ho, e, fun b hb => ?_⟩
    obtain ⟨⟨r, hr, hrid⟩, all⟩ := closed b hb
    refine ⟨⟨r, List.mem_append_left _ hr, hrid⟩, ?_⟩
    intro r' hr' hid'
    rcases List.mem_append.mp hr' with hr' | hr'
    · exact all r' hr' hid'
    · rw [List.mem_singleton.mp hr'] at hid'
      exact absurd (hrid.trans hid'.symm) (fresh.batch r hr)

theorem addLog (h : Listing t) {log : LogHead} (nodup : log.newsItemIds.Nodup)
    (unlisted : ∀ id ∈ log.newsItemIds, id ∉ t.listed)
    (stored : ∀ id ∈ log.newsItemIds, ∃ o ∈ t.items, o.id = id ∧ ∀ b, o.batchId = some b → t.Closed b) :
    Listing (t.addLog (some log)) where
  nodup := by
    rw [Tables.listed_addLog]
    refine List.nodup_append.mpr ⟨h.nodup, nodup, ?_⟩
    rintro a ha b hb rfl
    exact unlisted a hb ha
  stored := by
    intro id hid
    rw [Tables.listed_addLog] at hid
    rcases List.mem_append.mp hid with hid | hid
    · exact h.stored id hid
    · exact stored id hid

end Listing

/-- Every stored item is as it should be, and new to those stored before it. -/
structure Stored (P : Policy) (t : Tables) : Prop where
  made : ∀ o ∈ t.items, P.made o
  novel : t.items.Pairwise fun o o' => o.marketId = o'.marketId → P.novel o o'

theorem Stored.addItem {P : Policy} {t : Tables} (h : Stored P t) {item : NewsItem}
    (made : P.made item) (novel : ∀ o ∈ t.items, o.marketId = item.marketId → P.novel o item) :
    Stored P (t.addItem (some item)) where
  made := by
    intro o ho
    rcases List.mem_append.mp ho with ho | ho
    · exact h.made o ho
    · simp only [Option.toList_some, List.mem_singleton] at ho
      exact ho ▸ made
  novel := by
    refine List.pairwise_append.mpr ⟨h.novel, by simp, ?_⟩
    intro o ho o' ho'
    simp only [Option.toList_some, List.mem_singleton] at ho'
    exact ho' ▸ novel o ho

end NewsNotifier
