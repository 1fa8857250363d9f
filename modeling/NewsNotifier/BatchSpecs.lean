import NewsNotifier.BatchPrograms
import NewsNotifier.LedgerRules

namespace NewsNotifier

open Interleaving

theorem Database.tables_itemsOf (db : Database) (m : Uuid) :
    db.tables.itemsOf m = (db.itemsOf m).map NewsItem.deliver := by
  simp only [Tables.itemsOf, Database.tables, Database.itemsOf, List.filter_map]
  rfl

theorem Tables.itemsOf_addItem (t : Tables) (item : Option NewsItem) (m : Uuid) :
    (t.addItem item).itemsOf m = t.itemsOf m ++ item.toList.filter (·.marketId = m) := by
  simp [Tables.itemsOf, Tables.addItem, List.filter_append]

section Stable

variable {P : Policy} {i : JobId} {x y : Ledger}

theorem Storable.frame {o : NewsItem} (h : Storable P x i o) (hf : Frame P i x y) :
    Storable P y i o where
  locked := hf.holds _ h.locked
  drew := hf.drew _ h.drew
  unused := hf.tables.unused _ h.drew h.unused
  made := h.made
  novel := by
    intro o' ho' hm
    have : o' ∈ y.tables.itemsOf o.marketId := List.mem_filter.mpr ⟨ho', by simpa using hm⟩
    rw [hf.tables.heldItems _ h.locked] at this
    exact h.novel o' (List.mem_of_mem_filter this) hm

theorem Resolves.frame {m b : Uuid} {item : Option NewsItem} (h : Resolves P x i m b item)
    (hf : Frame P i x y) : Resolves P y i m b item where
  locked := hf.holds _ h.locked
  store := by
    intro o ho
    obtain ⟨hm, hb, store⟩ := h.store o ho
    exact ⟨hm, hb, store.frame hf⟩

/-- Under the lock of the market, what a close has gathered stays complete. -/
theorem Gathers.frame {item : Option NewsItem} {row : NewsBatch} {log : Option LogHead}
    (g : Gathers x i (x.tables.addItem item) row log) (hf : Frame P i x y)
    (locked : x.Holds i (P.lockKey row.marketId)) :
    Gathers y i (y.tables.addItem item) row log := by
  have items : (y.tables.addItem item).itemsOf row.marketId =
      (x.tables.addItem item).itemsOf row.marketId := by
    simp only [Tables.itemsOf_addItem, hf.tables.heldItems _ locked]
  cases log with
  | none =>
    intro o ho hm
    have ho' : o ∈ (y.tables.addItem item).itemsOf row.marketId :=
      List.mem_filter.mpr ⟨ho, by simpa using hm⟩
    rw [items] at ho'
    exact g o (List.mem_of_mem_filter ho') hm
  | some log =>
    obtain ⟨drew, unused, hm, hb, perm⟩ := g
    have unused' : x.tables.Unused log.id :=
      ⟨unused.batch, fun o ho => unused.item o (List.mem_append_left _ ho), unused.log, unused.key⟩
    have kept := hf.tables.unused _ drew unused'
    refine ⟨hf.drew _ drew, ⟨kept.batch, ?_, kept.log, kept.key⟩, hm, hb, items ▸ perm⟩
    intro o ho
    rcases List.mem_append.mp ho with ho | ho
    · exact kept.item o ho
    · exact unused.item o (List.mem_append_right _ ho)

/-- The row of a batch stays as it was read under the lock of its market. -/
theorem row_kept {m b : Uuid} {row : NewsBatch} (hy : y.Inv P) (hf : Frame P i x y)
    (locked : x.Holds i (P.lockKey m)) (batch : x.tables.HasBatch b m) (mem : row ∈ x.tables.batches)
    (hid : row.id = b) : row ∈ y.tables.batches ∧ row.marketId = m := by
  subst hid
  have mem' := (hf.tables.heldRows m locked row batch).mpr mem
  obtain ⟨row', hr', hid', market⟩ := hf.tables.batch _ _ batch
  obtain rfl := hy.rows.unique hr' mem' hid'
  exact ⟨mem', market⟩

theorem Solo.frame {log : LogHead} {id : Uuid} (h : Solo x i log id) (hf : Frame P i x y) :
    Solo y i log id :=
  ⟨hf.drew _ h.drew, hf.tables.unused _ h.drew h.unused, hf.drew _ h.drewKey,
    hf.tables.unused _ h.drewKey h.unusedKey, h.ids⟩

/-- An item that comes too late for its batch is in no log, and no close will take it. -/
theorem Resolves.stray {m b : Uuid} {c : String} {o : NewsItem} (hx : x.Inv P)
    (enter : Resolves P x i m b (some o)) (batch : x.tables.HasBatch b m) (closed : x.tables.Closed b)
    (strict : P.strict) : Stray ((x.tables.addItem (some o)).addCandidate b c) o.id where
  item := ⟨o, by simp [Tables.addItem, Tables.addCandidate], rfl⟩
  closed := by
    intro o' ho' e b' hb'
    have mem : o ∈ (x.tables.addItem (some o)).items := by simp [Tables.addItem]
    obtain rfl := (enter.rows hx batch).item_unique ho' mem e
    obtain rfl : b = b' := Option.some.inj ((enter.store o' rfl).2.1.symm.trans hb')
    exact closed
  unlisted := by
    intro listed
    obtain ⟨o', ho', e, _⟩ := (hx.listing strict).stored o.id listed
    exact (enter.store o rfl).2.2.unused.item o' ho' e

end Stable

section Statements

variable {lib : PyLib} {admits : Admits} {P : Policy} {i : JobId} {α : Type}
  {Q : α → List Write → Data → Prop} {l : List Write} {d : Data} {f : Tables → Tables}

theorem meets_insertCandidate {row : NewsBatchCandidate} {next : Bool → Program α}
    (effect : Effect l f) (same : ∀ t, (f t).candidates = t.candidates)
    (new : ∀ d' : Data, Frame P i d.ledger d'.ledger → d'.ledger.Inv P →
      (row.batchId, row.canonicalUrlHash) ∉ d'.ledger.tables.candidates →
        Meets lib admits P i (next true) Q (l ++ [.insertCandidate row]) d')
    (seen : ∀ d' : Data, Frame P i d.ledger d'.ledger → d'.ledger.Inv P →
      (row.batchId, row.canonicalUrlHash) ∈ d'.ledger.tables.candidates →
        Meets lib admits P i (next false) Q l d') :
    Meets lib admits P i (.stmt (.insertCandidate row) next) Q l d := by
  intro d' hr hi r l' d'' hx
  change exec lib i (.insertCandidate row) r l d' = _ at hx
  have frame := frame_of_rely hr
  have found : ((d'.db.after l).candidates.any fun c =>
      c.batchId = row.batchId && c.canonicalUrlHash = row.canonicalUrlHash) = true ↔
      (row.batchId, row.canonicalUrlHash) ∈ d'.ledger.tables.candidates := by
    have : d'.ledger.tables.candidates = (d'.db.after l).tables.candidates := by
      rw [effect d'.db, same]
      rfl
    rw [this]
    simp [Database.tables, List.any_eq_true]
  simp only [exec] at hx
  split at hx
  next h =>
    cases r with
    | true => simp at hx
    | false =>
      obtain ⟨rfl, rfl⟩ := Prod.mk.inj (Option.some.inj hx)
      exact ⟨.stay _ _, seen _ frame hi (found.mp h)⟩
  next h =>
    cases r with
    | false => simp at hx
    | true =>
      obtain ⟨rfl, rfl⟩ := Prod.mk.inj (Option.some.inj hx)
      exact ⟨.stay _ _, new _ frame hi fun hm => h (found.mpr hm)⟩

theorem view_batches (effect : Effect l f) (same : ∀ t, (f t).batches = t.batches) (db : Database) :
    (db.after l).batches = db.tables.batches := by
  change (db.after l).tables.batches = _
  rw [effect db, same]

theorem find_open {rows : List NewsBatch} {b : Uuid} {row : NewsBatch}
    (h : rows.find? (fun b' => b'.id = b && b'.status = .opened) = some row) :
    row ∈ rows ∧ row.id = b ∧ row.status = .opened := by
  refine ⟨List.mem_of_find?_eq_some h, ?_⟩
  simpa using List.find?_some h

theorem find_closed {rows : List NewsBatch} {b : Uuid}
    (h : rows.find? (fun b' => b'.id = b && b'.status = .opened) = none) :
    ∀ row ∈ rows, row.id = b → row.status = .closed := by
  intro row hr hid
  have := List.find?_eq_none.mp h row hr
  cases hs : row.status with
  | closed => rfl
  | opened => simp [hid, hs] at this

theorem meets_countResolved {b : Uuid} {next : Option BatchStatus → Program α}
    (effect : Effect l f) (same : ∀ t, (f t).batches = t.batches)
    (missed : ∀ d' : Data, Frame P i d.ledger d'.ledger →
      (∀ row ∈ d'.ledger.tables.batches, row.id = b → row.status = .closed) →
        Meets lib admits P i (next none) Q l d')
    (counted : ∀ (d' : Data) row, Frame P i d.ledger d'.ledger → row ∈ d'.ledger.tables.batches →
      row.id = b → row.status = .opened → row.resolvedCount + 1 < row.expectedCount →
        Meets lib admits P i (next (some .opened)) Q
          (l ++ [.setBatch b (row.resolvedCount + 1) .opened]) d')
    (last : ∀ (d' : Data) row, Frame P i d.ledger d'.ledger → row ∈ d'.ledger.tables.batches →
      row.id = b → row.status = .opened → row.expectedCount ≤ row.resolvedCount + 1 →
        Meets lib admits P i (next (some .closed)) Q
          (l ++ [.setBatch b (row.resolvedCount + 1) .closed]) d') :
    Meets lib admits P i (.stmt (.countResolved b) next) Q l d := by
  intro d' hr hi r l' d'' hx
  change exec lib i (.countResolved b) r l d' = _ at hx
  have frame := frame_of_rely hr
  simp only [exec, view_batches effect same] at hx
  split at hx
  next h =>
    obtain ⟨he, rfl, rfl⟩ := answered_eq hx
    obtain rfl : r = none := by simpa using he
    exact ⟨.stay _ _, missed _ frame (find_closed h)⟩
  next row h =>
    obtain ⟨mem, hid, status⟩ := find_open h
    by_cases full : row.expectedCount ≤ row.resolvedCount + 1
    · simp only [full, if_true] at hx
      split at hx
      next he =>
        subst he
        obtain ⟨rfl, rfl⟩ := Prod.mk.inj (Option.some.inj hx)
        exact ⟨.stay _ _, last _ row frame mem hid status full⟩
      next => simp at hx
    · simp only [full, if_false, status] at hx
      split at hx
      next he =>
        subst he
        obtain ⟨rfl, rfl⟩ := Prod.mk.inj (Option.some.inj hx)
        exact ⟨.stay _ _, counted _ row frame mem hid status (by omega)⟩
      next => simp at hx

theorem meets_closeOpen {b : Uuid} {next : Bool → Program α}
    (effect : Effect l f) (same : ∀ t, (f t).batches = t.batches)
    (missed : ∀ d' : Data, Frame P i d.ledger d'.ledger → Meets lib admits P i (next false) Q l d')
    (closed : ∀ (d' : Data) row, Frame P i d.ledger d'.ledger → row ∈ d'.ledger.tables.batches →
      row.id = b → row.status = .opened →
        Meets lib admits P i (next true) Q (l ++ [.setBatch b row.resolvedCount .closed]) d') :
    Meets lib admits P i (.stmt (.closeOpen b) next) Q l d := by
  intro d' hr hi r l' d'' hx
  change exec lib i (.closeOpen b) r l d' = _ at hx
  have frame := frame_of_rely hr
  simp only [exec, view_batches effect same] at hx
  split at hx
  next h =>
    obtain ⟨he, rfl, rfl⟩ := answered_eq hx
    obtain rfl : r = false := by simpa using he
    exact ⟨.stay _ _, missed _ frame⟩
  next row h =>
    obtain ⟨mem, hid, status⟩ := find_open h
    cases r with
    | false => simp at hx
    | true =>
      obtain ⟨rfl, rfl⟩ := Prod.mk.inj (Option.some.inj hx)
      exact ⟨.stay _ _, closed _ row frame mem hid status⟩

/-- The read of a close, as the ledger sees it. -/
theorem batchItems_ids {m b : Uuid} {item : Option NewsItem} {r : List NewsItem} {l' : List Write}
    {d' : Data} (effect : Effect l f) (same : ∀ t, (f t).items = (t.addItem item).items)
    (hx : exec lib i (.batchItems m b) r l d = some (l', d')) :
    l' = l ∧ d' = d ∧ (r.map (·.id)).Perm
      ((((d.ledger.tables.addItem item).itemsOf m).filter (·.batchId = some b)).map (·.id)) := by
  obtain ⟨ok, rfl, rfl⟩ := answered_eq hx
  refine ⟨rfl, rfl, ?_⟩
  simp only [Bool.and_eq_true] at ok
  have perm := (List.isPerm_iff.mp ok.1).map (·.id)
  have view : (d'.ledger.tables.addItem item).itemsOf m =
      ((d'.db.after l').itemsOf m).map NewsItem.deliver := by
    rw [← Database.tables_itemsOf, effect d'.db]
    simp only [Tables.itemsOf, same]
    rfl
  rw [view, List.filter_map, List.map_map]
  exact perm

end Statements

section Programs

variable {lib : PyLib} {admits : Admits} {P : Policy} {i : JobId} {l : List Write} {d : Data}
  {f : Tables → Tables} {m b : Uuid} {item : Option NewsItem}

/-- What `finalizeBatchDelivery` leaves: the staged log holds the items of the batch. -/
def Finalized (P : Policy) (i : JobId) (m b : Uuid) (item : Option NewsItem)
    (f : Tables → Tables) (d : Data) (l : List Write) (d' : Data) : Prop :=
  Frame P i d.ledger d'.ledger ∧ ∃ log, Effect l (fun t => (f t).addLog log) ∧
    ∀ row, row.id = b → row.marketId = m → Gathers d'.ledger i (d'.ledger.tables.addItem item) row log

theorem finalizeBatchDelivery_meets (effect : Effect l f)
    (same : ∀ t, (f t).items = (t.addItem item).items) (locked : d.ledger.Holds i (P.lockKey m))
    (drew : ∀ o ∈ item, d.ledger.Drew i o.id) :
    Meets lib admits P i (finalizeBatchDelivery m b)
      (fun _ l d' => Finalized P i m b item f d l d') l d := by
  refine meets_quiet rfl fun r d₁ d₂ hf₁ _ hx _ => ?_
  obtain ⟨_, rfl, ids⟩ := batchItems_ids effect same hx
  simp only [Prog.ret_bind]
  have locked₂ := hf₁.holds _ locked
  split
  next empty =>
    subst empty
    refine meets_ret fun d₃ hf₃ _ => ⟨hf₁.trans hf₃, none, ?_, ?_⟩
    · simpa using effect
    · rintro row rfl rfl
      refine Gathers.frame ?_ hf₃ locked₂
      intro o ho hm hb
      have : o.id ∈ [].map NewsItem.id := ids.mem_iff.mpr (List.mem_map.mpr
        ⟨o, List.mem_filter.mpr ⟨List.mem_filter.mpr ⟨ho, by simpa using hm⟩, by simpa using hb⟩, rfl⟩)
      simp at this
  next =>
    refine meets_insertLog fun log new d₃ head hf₃ drewLog unused apart => ?_
    refine meets_ret fun d₄ hf₄ _ => ⟨hf₁.trans (hf₃.trans hf₄), some log.head, effect.insertLog log, ?_⟩
    rintro row rfl rfl
    refine Gathers.frame ?_ hf₄ (hf₃.holds _ locked₂)
    have items : (d₃.ledger.tables.addItem item).itemsOf row.marketId =
        (d₂.ledger.tables.addItem item).itemsOf row.marketId := by
      simp only [Tables.itemsOf_addItem, hf₃.tables.heldItems _ locked₂]
    rw [head]
    refine ⟨drewLog, ⟨unused.batch, ?_, unused.log, unused.key⟩, rfl, rfl, items ▸ ids⟩
    intro o ho
    rcases List.mem_append.mp ho with ho | ho
    · exact unused.item o ho
    · exact apart _ (hf₁.drew _ (drew o (by simpa using ho)))

/-- The end of both closing functions: gather, then commit the close and its log together. -/
theorem closing_meets (effect : Effect l f) (same : ∀ t, (f t).items = (t.addItem item).items)
    (locked : d.ledger.Holds i (P.lockKey m)) (drew : ∀ o ∈ item, d.ledger.Drew i o.id)
    (commit : ∀ log (d' : Data), Frame P i d.ledger d'.ledger → d'.ledger.Inv P →
      (∀ row, row.id = b → row.marketId = m →
        Gathers d'.ledger i (d'.ledger.tables.addItem item) row log) →
          Commit P i d'.ledger ((f d'.ledger.tables).addLog log)) :
    Meets lib admits P i ((finalizeBatchDelivery m b).bind fun logId =>
      .stmt .commit fun _ => .ret logId) (fun _ l _ => l = []) l d := by
  refine wp_bind (wp_mono (finalizeBatchDelivery_meets effect same locked drew) ?_ fun _ h => h)
  rintro logId l' d₁ _ ⟨hf₁, log, effect₁, gather⟩ _
  refine meets_commit effect₁ fun d₂ hf₂ hi₂ => ⟨?_, fun d₃ _ _ => meets_ret fun _ _ _ => rfl⟩
  refine commit log d₂ (hf₁.trans hf₂) hi₂ ?_
  rintro row rfl rfl
  exact (gather row rfl rfl).frame hf₂ (hf₁.holds _ locked)

theorem createSoloDelivery_meets {id : Uuid} (effect : Effect l f) :
    Meets lib admits P i (createSoloDelivery m id) (fun _ l d' => Frame P i d.ledger d'.ledger ∧
      ∃ log, Effect l (fun t => (f t).addLog (some log)) ∧ Solo d'.ledger i log id ∧
        ∀ v, d.ledger.Drew i v → log.id ≠ v ∧ log.batchId ≠ v) l d := by
  refine meets_uuid4 fun u d₁ hf₁ drewKey unusedKey apartKey => ?_
  refine meets_insertLog fun log new d₂ head hf₂ drew unused apart => ?_
  refine meets_ret fun d₃ hf₃ _ => ⟨hf₁.trans (hf₂.trans hf₃), log.head, effect.insertLog log, ?_, ?_⟩
  · rw [head]
    exact Solo.frame ⟨drew, unused, hf₂.drew _ drewKey, hf₂.tables.unused _ drewKey unusedKey, rfl⟩ hf₃
  · intro v hv
    rw [head]
    exact ⟨(apart v (hf₁.drew v hv)).symm, (apartKey v hv).symm⟩

/-- The straggler's second transaction. -/
theorem lateDelivery_meets {id : Uuid} (stray : P.strict → d.ledger.Drew i id ∧ Stray d.ledger.tables id) :
    Meets lib admits P i ((createSoloDelivery m id).bind fun logId =>
      .stmt .commit fun _ => .ret (some logId)) (fun _ l _ => l = []) [] d := by
  refine wp_bind (wp_mono (createSoloDelivery_meets .nil) ?_ fun _ h => h)
  rintro logId l' d₁ _ ⟨hf₁, log, effect, solo, _⟩ _
  refine meets_commit effect fun d₂ hf₂ _ => ⟨?_, ?_⟩
  · refine .solo log id (solo.frame hf₂) fun hs => ?_
    obtain ⟨drew, stray⟩ := stray hs
    have hf := hf₁.trans hf₂
    exact ⟨hf.drew _ drew, hf.tables.stray hs _ drew stray⟩
  · exact fun d₃ _ _ => meets_ret fun _ _ _ => rfl

theorem resolveBatchCandidate_meets {c outcome : String} {newsItemId : Option Uuid}
    (key : P.lockKey = marketLockKey) (effect : Effect l (·.addItem item))
    (batch : d.ledger.tables.HasBatch b m)
    (store : ∀ o ∈ item, o.marketId = m ∧ o.batchId = some b ∧ Storable P d.ledger i o)
    (own : P.strict → newsItemId = item.map (·.id)) :
    Meets lib admits P i (resolveBatchCandidate m b c outcome newsItemId) (fun _ l _ => l = []) l d := by
  refine meets_lock fun d₁ hf₁ locked => ?_
  have enter : Resolves P d₁.ledger i m b item := by
    refine ⟨key ▸ locked, fun o ho => ?_⟩
    obtain ⟨hm, hb, h⟩ := store o ho
    exact ⟨hm, hb, h.frame hf₁⟩
  have batch₁ := hf₁.tables.batch _ _ batch
  refine meets_insertCandidate effect (fun _ => rfl) (fun d₂ hf₂ _ new => ?_) fun d₂ hf₂ _ seen => ?_
  · have locked₂ := hf₂.holds _ enter.locked
    have batch₂ := hf₂.tables.batch _ _ batch₁
    have kept : ∀ y : Data, Frame P i d₂.ledger y.ledger → (b, c) ∉ y.ledger.tables.candidates :=
      fun y hy seen => new ((hy.tables.heldCandidates m locked₂ b c batch₂).mp seen)
    refine meets_countResolved (effect.insertCandidate _) (fun _ => rfl) (fun d₃ hf₃ closed => ?_)
      (fun d₃ row hf₃ mem hid status more => ?_) (fun d₃ row hf₃ mem hid status last => ?_)
    · refine meets_commit (effect.insertCandidate _) fun d₄ hf₄ hi₄ => ?_
      have hf := hf₂.trans (hf₃.trans hf₄)
      have batch₄ := hf.tables.batch _ _ batch₁
      have closed₄ : d₄.ledger.tables.Closed b := by
        refine hf₄.tables.closed _ ⟨?_, closed⟩
        obtain ⟨row, mem, hid, _⟩ := (hf₂.trans hf₃).tables.batch _ _ batch₁
        exact ⟨row, mem, hid⟩
      refine ⟨.late m b c item (enter.frame hf) batch₄ (kept d₄ (hf₃.trans hf₄)) closed₄, ?_⟩
      intro d₅ same _
      cases newsItemId with
      | none => exact meets_ret fun _ _ _ => rfl
      | some id =>
        refine lateDelivery_meets fun strict => ?_
        have named := own strict
        cases item with
        | none => simp at named
        | some o =>
          obtain rfl : id = o.id := by simpa using named
          have enter₄ := enter.frame hf
          refine ⟨?_, ?_⟩
          · rw [same]
            exact (enter₄.store o rfl).2.2.drew
          · rw [same]
            exact enter₄.stray hi₄ batch₄ closed₄ strict
    · refine meets_commit ((effect.insertCandidate _).setBatch b _ .opened) fun d₄ hf₄ hi₄ => ⟨?_, ?_⟩
      · have hf := hf₂.trans (hf₃.trans hf₄)
        obtain ⟨mem₄, market⟩ := 
          row_kept hi₄ hf₄ (hf₃.holds _ locked₂) (hf₃.tables.batch _ _ batch₂) mem hid
        subst hid market
        exact .counted c row item (enter.frame hf) (kept d₄ (hf₃.trans hf₄)) mem₄ status more
      · exact fun d₅ _ _ => meets_ret fun _ _ _ => rfl
    · have locked₃ := (hf₂.trans hf₃).holds _ enter.locked
      refine closing_meets (f := fun t => ((t.addItem item).addCandidate b c).setBatch b _ .closed)
        ((effect.insertCandidate _).setBatch b _ .closed) (fun _ => rfl) locked₃ ?_ ?_
      · exact fun o ho => (hf₂.trans hf₃).drew _ (enter.store o ho).2.2.drew
      · intro log d₄ hf₄ hi₄ gather
        have hf := hf₂.trans (hf₃.trans hf₄)
        obtain ⟨mem₄, market⟩ := row_kept hi₄ hf₄ locked₃ (hf₃.tables.batch _ _ batch₂) mem hid
        subst hid market
        exact .closed c row item log (enter.frame hf) (kept d₄ (hf₃.trans hf₄)) mem₄ status last
          (gather row rfl rfl)
  · refine meets_commit effect fun d₃ hf₃ _ => ⟨?_, ?_⟩
    · have hf := hf₂.trans hf₃
      exact .repeated m b c item (enter.frame hf) (hf.tables.batch _ _ batch₁)
        (hf₃.tables.candidates _ seen)
    · exact fun d₄ _ _ => meets_ret fun _ _ _ => rfl

theorem forceCloseBatch_meets (key : P.lockKey = marketLockKey) (effect : Effect l id)
    (batch : d.ledger.tables.HasBatch b m) :
    Meets lib admits P i (forceCloseBatch m b) (fun _ l _ => l = []) l d := by
  refine meets_lock fun d₁ hf₁ locked => ?_
  have batch₁ := hf₁.tables.batch _ _ batch
  rw [← key] at locked
  refine meets_closeOpen effect (fun _ => rfl) (fun d₂ hf₂ => ?_) fun d₂ row hf₂ mem hid status => ?_
  · refine meets_commit effect fun d₃ _ _ => ⟨.nothing, ?_⟩
    exact fun d₄ _ _ => meets_ret fun _ _ _ => rfl
  · have locked₂ := hf₂.holds _ locked
    have same (n : Nat) (t : Tables) : (t.setBatch b n .closed).items = (t.addItem none).items := by
      simp [Tables.setBatch]
    refine closing_meets (effect.setBatch b _ .closed) (same _) locked₂ (by simp) ?_
    intro log d₃ hf₃ hi₃ gather
    obtain ⟨mem₃, market⟩ := row_kept hi₃ hf₃ locked₂ (hf₂.tables.batch _ _ batch₁) mem hid
    subst hid market
    have gathered := gather row rfl rfl
    rw [Tables.addItem_none] at gathered
    exact .forced row log (hf₃.holds _ locked₂) mem₃ status gathered

end Programs

end NewsNotifier
