import NewsNotifier.LedgerInvariants

namespace NewsNotifier

namespace Ledger

/-- The invariant of the ledger. -/
structure Inv (P : Policy) (x : Ledger) : Prop where
  locks : ∀ e ∈ x.locks, ∀ e' ∈ x.locks, e.1 = e'.1 → e.2 = e'.2
  drawn : (x.drawn.map (·.1)).Nodup
  rows : Rows (x.drawn.map (·.1)) x.tables
  counts : Counts x.tables
  listing : P.strict → Listing x.tables
  stored : Stored P x.tables
  posts : P.strict → ∀ p ∈ x.posts, ∃ log ∈ x.tables.logs, p = (log.batchId, log.newsItemIds)

theorem Drew.mem {x : Ledger} {i : JobId} {u : Uuid} (h : x.Drew i u) : u ∈ x.drawn.map (·.1) :=
  List.mem_map.mpr ⟨(u, i), h, rfl⟩

end Ledger

namespace Gathers

variable {x : Ledger} {i : JobId} {t : Tables} {row : NewsBatch} {log : Option LogHead} {n : Nat}

theorem addCandidate (g : Gathers x i t row log) (b : Uuid) (c : String) :
    Gathers x i (t.addCandidate b c) row log := by
  cases log with
  | none => exact g
  | some log =>
    obtain ⟨drew, unused, rest⟩ := g
    exact ⟨drew, ⟨unused.batch, unused.item, unused.log, unused.key⟩, rest⟩

/-- The gathered items are items of the batch. -/
theorem mem_ids {log : LogHead} (g : Gathers x i t row (some log)) {id : Uuid} :
    id ∈ log.newsItemIds ↔
      ∃ o ∈ t.items, o.id = id ∧ o.marketId = row.marketId ∧ o.batchId = some row.id := by
  rw [g.2.2.2.2.mem_iff]
  simp only [Tables.itemsOf, List.mem_map, List.mem_filter, decide_eq_true_eq]
  constructor
  · rintro ⟨o, ⟨⟨ho, hm⟩, hb⟩, e⟩
    exact ⟨o, ho, e, hm, hb⟩
  · rintro ⟨o, ho, e, hm, hb⟩
    exact ⟨o, ⟨⟨ho, hm⟩, hb⟩, e⟩

theorem rows (g : Gathers x i t row log) (h : Rows (x.drawn.map (·.1)) t) (mem : row ∈ t.batches)
    (status : row.status = .opened) :
    Rows (x.drawn.map (·.1)) ((t.setBatch row.id n .closed).addLog log) := by
  cases log with
  | none =>
    rw [Tables.addLog_none]
    exact h.setBatch mem status
  | some log =>
    obtain ⟨drew, unused, _, key, _⟩ := g
    refine (h.setBatch mem status).addLog unused.log ?_ ⟨drew.mem, key ▸ h.batchDrawn row mem⟩ ?_
    · intro l hl e
      simp [h.keyClosed l hl row mem (e.trans key)] at status
    · intro r hr e
      exact (Tables.Closed.of_setBatch ⟨row, mem, rfl⟩).2 r hr (by rw [← e, key])

theorem listing (g : Gathers x i t row log) (h : Listing t) (hr : Rows (x.drawn.map (·.1)) t)
    (mem : row ∈ t.batches) (status : row.status = .opened) :
    Listing ((t.setBatch row.id n .closed).addLog log) := by
  cases log with
  | none =>
    rw [Tables.addLog_none]
    exact h.setBatch mem status
  | some log =>
    refine (h.setBatch mem status).addLog ?_ ?_ ?_
    · refine g.2.2.2.2.nodup_iff.mpr ?_
      exact hr.itemIds.sublist ((List.filter_sublist.trans List.filter_sublist).map _)
    · intro id hid listed
      obtain ⟨o, ho, e, _, hb⟩ := g.mem_ids.mp hid
      obtain ⟨o', ho', e', closed⟩ := h.stored id listed
      obtain rfl := hr.item_unique ho ho' (e.trans e'.symm)
      simp [(closed _ hb).2 row mem rfl] at status
    · intro id hid
      obtain ⟨o, ho, e, _, hb⟩ := g.mem_ids.mp hid
      refine ⟨o, ho, e, ?_⟩
      intro b hb'
      obtain rfl : row.id = b := Option.some.inj (hb.symm.trans hb')
      exact Tables.Closed.of_setBatch ⟨row, mem, rfl⟩

end Gathers

namespace Resolves

variable {P : Policy} {x : Ledger} {i : JobId} {m b : Uuid} {item : Option NewsItem}

theorem rows (h : Resolves P x i m b item) (hx : x.Inv P) (batch : x.tables.HasBatch b m) :
    Rows (x.drawn.map (·.1)) (x.tables.addItem item) := by
  cases item with
  | none =>
    rw [Tables.addItem_none]
    exact hx.rows
  | some o =>
    obtain ⟨hm, hb, store⟩ := h.store o rfl
    refine hx.rows.addItem store.unused.item store.drew.mem ?_
    intro b' hb'
    obtain rfl : b = b' := Option.some.inj (hb.symm.trans hb')
    exact hm ▸ batch

theorem stored (h : Resolves P x i m b item) (hx : x.Inv P) :
    Stored P (x.tables.addItem item) := by
  cases item with
  | none =>
    rw [Tables.addItem_none]
    exact hx.stored
  | some o =>
    obtain ⟨_, _, store⟩ := h.store o rfl
    exact hx.stored.addItem store.made store.novel

end Resolves

namespace Commit

variable {P : Policy} {i : JobId} {x : Ledger} {t : Tables}

theorem rows (h : Commit P i x t) (hx : x.Inv P) : Rows (x.drawn.map (·.1)) t := by
  cases h with
  | nothing => exact hx.rows
  | opened row drew unused _ _ _ => exact hx.rows.openBatch unused drew.mem
  | alone item log store batch solo apart =>
    have items := hx.rows.addItem store.unused.item store.drew.mem (by simp [batch])
    refine items.addLog solo.unused.log solo.unusedKey.key ⟨solo.drew.mem, solo.drewKey.mem⟩ ?_
    exact fun r hr e => absurd e.symm (solo.unusedKey.batch r hr)
  | solo log id solo _ =>
    refine hx.rows.addLog solo.unused.log solo.unusedKey.key ⟨solo.drew.mem, solo.drewKey.mem⟩ ?_
    exact fun r hr e => absurd e.symm (solo.unusedKey.batch r hr)
  | repeated m b c item enter batch seen => exact enter.rows hx batch
  | late m b c item enter batch new closed => exact (enter.rows hx batch).addCandidate c closed.1
  | counted c row item enter new mem status more =>
    exact ((enter.rows hx ⟨row, mem, rfl, rfl⟩).addCandidate c ⟨row, mem, rfl⟩).setBatch mem status
  | closed c row item log enter new mem status last gather =>
    have items := (enter.rows hx ⟨row, mem, rfl, rfl⟩).addCandidate c ⟨row, mem, rfl⟩
    exact (gather.addCandidate row.id c).rows items mem status
  | forced row log locked mem status gather => exact gather.rows hx.rows mem status

theorem counts (h : Commit P i x t) (hx : x.Inv P) : Counts t := by
  cases h with
  | nothing => exact hx.counts
  | opened row drew unused count expected _ => exact hx.counts.openBatch hx.rows unused count expected
  | alone item log store batch solo apart => exact hx.counts
  | solo log id solo _ => exact hx.counts
  | repeated m b c item enter batch seen => exact hx.counts
  | late m b c item enter batch new closed => exact Counts.addCandidate_closed hx.counts closed
  | counted c row item enter new mem status more =>
    exact hx.counts.count hx.rows mem status fun _ => more
  | closed c row item log enter new mem status last gather =>
    exact hx.counts.count hx.rows mem status (s := .closed) (by simp)
  | forced row log locked mem status gather => exact hx.counts.close hx.rows mem

theorem listing (h : Commit P i x t) (hx : x.Inv P) (hs : P.strict) : Listing t := by
  have listing := hx.listing hs
  cases h with
  | nothing => exact listing
  | opened row drew unused _ _ _ => exact listing.openBatch unused
  | alone item log store batch solo apart =>
    refine (listing.addItem _).addLog ?_ ?_ ?_
    · simp [solo.ids]
    · simp only [solo.ids, List.mem_singleton, forall_eq]
      intro listed
      obtain ⟨o, ho, e, _⟩ := listing.stored item.id listed
      exact store.unused.item o ho e
    · simp only [solo.ids, List.mem_singleton, forall_eq]
      exact ⟨item, by simp [Tables.addItem], rfl, by simp [batch]⟩
  | solo log id solo stray =>
    obtain ⟨_, stray⟩ := stray hs
    refine listing.addLog ?_ ?_ ?_
    · simp [solo.ids]
    · simpa [solo.ids] using stray.unlisted
    · simp only [solo.ids, List.mem_singleton, forall_eq]
      obtain ⟨o, ho, e⟩ := stray.item
      exact ⟨o, ho, e, stray.closed o ho e⟩
  | repeated m b c item enter batch seen => exact listing.addItem item
  | late m b c item enter batch new closed => exact ⟨(listing.addItem item).nodup, (listing.addItem item).stored⟩
  | counted c row item enter new mem status more =>
    have items : Listing ((x.tables.addItem item).addCandidate row.id c) :=
      ⟨(listing.addItem item).nodup, (listing.addItem item).stored⟩
    exact items.setBatch mem status
  | closed c row item log enter new mem status last gather =>
    have items : Listing ((x.tables.addItem item).addCandidate row.id c) :=
      ⟨(listing.addItem item).nodup, (listing.addItem item).stored⟩
    have rows := (enter.rows hx ⟨row, mem, rfl, rfl⟩).addCandidate c ⟨row, mem, rfl⟩
    exact (gather.addCandidate row.id c).listing items rows mem status
  | forced row log locked mem status gather => exact gather.listing listing hx.rows mem status

theorem stored (h : Commit P i x t) (hx : x.Inv P) : Stored P t := by
  cases h with
  | nothing => exact hx.stored
  | opened row drew unused _ _ _ => exact ⟨hx.stored.made, hx.stored.novel⟩
  | alone item log store batch solo apart =>
    have items := hx.stored.addItem store.made store.novel
    exact ⟨items.made, items.novel⟩
  | solo log id solo _ => exact ⟨hx.stored.made, hx.stored.novel⟩
  | repeated m b c item enter batch seen => exact enter.stored hx
  | late m b c item enter batch new closed => exact ⟨(enter.stored hx).made, (enter.stored hx).novel⟩
  | counted c row item enter new mem status more =>
    exact ⟨(enter.stored hx).made, (enter.stored hx).novel⟩
  | closed c row item log enter new mem status last gather =>
    exact ⟨(enter.stored hx).made, (enter.stored hx).novel⟩
  | forced row log locked mem status gather => exact ⟨hx.stored.made, hx.stored.novel⟩

theorem logs_subset (h : Commit P i x t) {log : LogHead} (hl : log ∈ x.tables.logs) : log ∈ t.logs := by
  cases h with
  | nothing | opened | repeated | late | counted => exact hl
  | alone | solo | closed | forced => exact List.mem_append_left _ hl

theorem hasBatch (h : Commit P i x t) {b m : Uuid} (hb : x.tables.HasBatch b m) : t.HasBatch b m := by
  cases h with
  | nothing | alone | solo | repeated | late => exact hb
  | opened row _ _ _ _ _ =>
    obtain ⟨r, hr, h⟩ := hb
    exact ⟨r, List.mem_append_left _ hr, h⟩
  | counted | closed | forced => exact Tables.HasBatch.setBatch hb

end Commit

theorem Act.hasBatch {P : Policy} {a : Option JobId} {x y : Ledger} (h : Act P a x y) {b m : Uuid}
    (hb : x.tables.HasBatch b m) : y.tables.HasBatch b m := by
  cases h with
  | stay | lock | draw | post => exact hb
  | commit hc => exact hc.hasBatch hb

/-- Every act keeps the invariant. -/
theorem Act.inv {P : Policy} {a : Option JobId} {x y : Ledger} (h : Act P a x y) (hx : x.Inv P) :
    y.Inv P := by
  cases h with
  | stay => exact hx
  | @lock i _ key free =>
    refine { hx with locks := ?_ }
    intro e he e' he' hk
    rcases List.mem_cons.mp he with rfl | he <;> rcases List.mem_cons.mp he' with rfl | he'
    · rfl
    · exact (free e' he' hk.symm).symm
    · exact free e he hk
    · exact hx.locks e he e' he' hk
  | @draw i _ u fresh =>
    refine { hx with drawn := ?_, rows := hx.rows.mono fun v hv => List.mem_cons_of_mem _ hv }
    refine List.nodup_cons.mpr ⟨?_, hx.drawn⟩
    intro hu
    obtain ⟨e, he, rfl⟩ := List.mem_map.mp hu
    exact fresh e he rfl
  | post p promised =>
    refine { hx with posts := ?_ }
    intro hs q hq
    rcases List.mem_append.mp hq with hq | hq
    · exact hx.posts hs q hq
    · exact List.mem_singleton.mp hq ▸ promised hs
  | commit hc =>
    exact {
      locks := fun e he e' he' =>
        hx.locks e (List.mem_of_mem_filter he) e' (List.mem_of_mem_filter he')
      drawn := hx.drawn
      rows := hc.rows hx
      counts := hc.counts hx
      listing := hc.listing hx
      stored := hc.stored hx
      posts := by
        intro hs p hp
        obtain ⟨log, hl, e⟩ := hx.posts hs p hp
        exact ⟨log, hc.logs_subset hl, e⟩ }

end NewsNotifier
