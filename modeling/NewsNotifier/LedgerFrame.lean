import NewsNotifier.LedgerSteps

namespace NewsNotifier

/-- What a change of the tables by others leaves alone: for a process that drew the ids `drew` and
stands in the critical sections of the markets `held`. -/
structure Keeps (P : Policy) (drew : Uuid → Prop) (held : Uuid → Prop) (t t' : Tables) : Prop where
  unused : ∀ u, drew u → t.Unused u → t'.Unused u
  batch : ∀ b m, t.HasBatch b m → t'.HasBatch b m
  closed : ∀ b, t.Closed b → t'.Closed b
  items : ∀ o ∈ t.items, o ∈ t'.items
  logs : ∀ log ∈ t.logs, log ∈ t'.logs
  candidates : ∀ c ∈ t.candidates, c ∈ t'.candidates
  stray : P.strict → ∀ u, drew u → Stray t u → Stray t' u
  heldItems : ∀ m, held m → t'.itemsOf m = t.itemsOf m
  heldRows : ∀ m, held m → ∀ row, t.HasBatch row.id m → (row ∈ t'.batches ↔ row ∈ t.batches)
  heldCandidates : ∀ m, held m → ∀ b h, t.HasBatch b m →
    ((b, h) ∈ t'.candidates ↔ (b, h) ∈ t.candidates)

namespace Keeps

variable {P : Policy} {drew held : Uuid → Prop} {t t' t'' : Tables}

theorem refl (t : Tables) : Keeps P drew held t t where
  unused := fun _ _ h => h
  batch := fun _ _ h => h
  closed := fun _ h => h
  items := fun _ h => h
  logs := fun _ h => h
  candidates := fun _ h => h
  stray := fun _ _ _ h => h
  heldItems := fun _ _ => rfl
  heldRows := fun _ _ _ _ => Iff.rfl
  heldCandidates := fun _ _ _ _ _ => Iff.rfl

theorem trans (h : Keeps P drew held t t') (h' : Keeps P drew held t' t'') :
    Keeps P drew held t t'' where
  unused := fun u hu hx => h'.unused u hu (h.unused u hu hx)
  batch := fun b m hb => h'.batch b m (h.batch b m hb)
  closed := fun b hb => h'.closed b (h.closed b hb)
  items := fun o ho => h'.items o (h.items o ho)
  logs := fun l hl => h'.logs l (h.logs l hl)
  candidates := fun c hc => h'.candidates c (h.candidates c hc)
  stray := fun hs u hu hx => h'.stray hs u hu (h.stray hs u hu hx)
  heldItems := fun m hm => (h'.heldItems m hm).trans (h.heldItems m hm)
  heldRows := fun m hm row hb =>
    (h'.heldRows m hm row (h.batch _ m hb)).trans (h.heldRows m hm row hb)
  heldCandidates := fun m hm b c hb =>
    (h'.heldCandidates m hm b c (h.batch b m hb)).trans (h.heldCandidates m hm b c hb)

theorem addItem {item : NewsItem} (ids : ∀ u, drew u → u ≠ item.id) (market : ¬ held item.marketId) :
    Keeps P drew held t (t.addItem (some item)) :=
  { @refl P drew held t with
    unused := by
      intro u hu h
      refine ⟨h.batch, ?_, h.log, h.key⟩
      intro o ho
      rcases List.mem_append.mp ho with ho | ho
      · exact h.item o ho
      · simp only [Option.toList_some, List.mem_singleton] at ho
        exact ho ▸ (ids u hu).symm
    items := fun o ho => List.mem_append_left _ ho
    stray := by
      intro _ u hu h
      refine ⟨?_, ?_, h.unlisted⟩
      · obtain ⟨o, ho, e⟩ := h.item
        exact ⟨o, List.mem_append_left _ ho, e⟩
      · intro o ho e
        rcases List.mem_append.mp ho with ho | ho
        · exact h.closed o ho e
        · simp only [Option.toList_some, List.mem_singleton] at ho
          exact absurd (ho ▸ e).symm (ids u hu)
    heldItems := by
      intro m hm
      have ne : item.marketId ≠ m := by
        rintro rfl
        exact market hm
      simp [Tables.itemsOf, Tables.addItem, List.filter_append, ne] }

theorem addCandidate {b : Uuid} {c : String} (market : ∀ m, held m → ¬ t.HasBatch b m) :
    Keeps P drew held t (t.addCandidate b c) :=
  { @refl P drew held t with
    unused := fun u _ h => ⟨h.batch, h.item, h.log, h.key⟩
    candidates := fun c hc => List.mem_append_left _ hc
    stray := fun _ u _ h => ⟨h.item, h.closed, h.unlisted⟩
    heldCandidates := by
      intro m hm b' h hb
      have ne : b' ≠ b := by
        rintro rfl
        exact market m hm hb
      simp [Tables.addCandidate, ne] }

theorem setBatch (ids : (t.batches.map (·.id)).Nodup) {row : NewsBatch} {n : Nat}
    {s : BatchStatus} (mem : row ∈ t.batches) (status : row.status = .opened)
    (market : ¬ held row.marketId) : Keeps P drew held t (t.setBatch row.id n s) :=
  { @refl P drew held t with
    unused := by
      intro u _ h
      refine ⟨?_, h.item, h.log, h.key⟩
      intro r hr
      obtain ⟨r', hr', rfl⟩ := Tables.mem_setBatch.mp hr
      have := h.batch r' hr'
      split <;> simpa [NewsBatch.set] using this
    batch := fun b m hb => hb.setBatch
    closed := fun b hb => hb.setBatch mem status
    stray := fun _ u _ h =>
      ⟨h.item, fun o ho e b hb => (h.closed o ho e b hb).setBatch mem status, h.unlisted⟩
    heldRows := by
      intro m hm r hb
      have ne : r.id ≠ row.id := by
        intro e
        obtain ⟨r', hr', hid, rfl⟩ := hb
        obtain rfl := List.inj_on_of_nodup_map ids hr' mem (hid.trans e)
        exact market hm
      exact Tables.mem_setBatch_of_ne ne }

theorem addLog {log : LogHead} (ids : ∀ u, drew u → u ≠ log.id)
    (key : ∀ u, drew u → u ≠ log.batchId ∨ ¬ t.Unused u)
    (listed : P.strict → ∀ u, drew u → Stray t u → u ∉ log.newsItemIds) :
    Keeps P drew held t (t.addLog (some log)) :=
  { @refl P drew held t with
    unused := by
      intro u hu h
      refine ⟨h.batch, h.item, ?_, ?_⟩
      · intro l hl
        rcases List.mem_append.mp hl with hl | hl
        · exact h.log l hl
        · simp only [Option.toList_some, List.mem_singleton] at hl
          exact hl ▸ (ids u hu).symm
      · intro l hl
        rcases List.mem_append.mp hl with hl | hl
        · exact h.key l hl
        · simp only [Option.toList_some, List.mem_singleton] at hl
          rcases key u hu with ne | used
          · exact hl ▸ ne.symm
          · exact absurd h used
    logs := fun l hl => List.mem_append_left _ hl
    stray := by
      intro hs u hu h
      refine ⟨h.item, h.closed, ?_⟩
      rw [Tables.listed_addLog]
      intro hm
      rcases List.mem_append.mp hm with hm | hm
      · exact h.unlisted hm
      · exact listed hs u hu h hm }

theorem openBatch {row : NewsBatch} (fresh : t.Unused row.id) (ids : ∀ u, drew u → u ≠ row.id) :
    Keeps P drew held t { t with batches := t.batches ++ [row] } := by
  have closed : ∀ b, t.Closed b → Tables.Closed { t with batches := t.batches ++ [row] } b := by
    rintro b ⟨⟨r, hr, hid⟩, all⟩
    refine ⟨⟨r, List.mem_append_left _ hr, hid⟩, ?_⟩
    intro r' hr' hid'
    rcases List.mem_append.mp hr' with hr' | hr'
    · exact all r' hr' hid'
    · rw [List.mem_singleton.mp hr'] at hid'
      exact absurd (hid.trans hid'.symm) (fresh.batch r hr)
  exact
    { @refl P drew held t with
      unused := by
        intro u hu h
        refine ⟨?_, h.item, h.log, h.key⟩
        intro r hr
        rcases List.mem_append.mp hr with hr | hr
        · exact h.batch r hr
        · exact List.mem_singleton.mp hr ▸ (ids u hu).symm
      batch := by
        rintro b m ⟨r, hr, h⟩
        exact ⟨r, List.mem_append_left _ hr, h⟩
      closed := closed
      stray := fun _ u _ h => ⟨h.item, fun o ho e b hb => closed b (h.closed o ho e b hb), h.unlisted⟩
      heldRows := by
        rintro m hm r ⟨r', hr', hid, _⟩
        have ne : r ≠ row := by
          rintro rfl
          exact fresh.batch r' hr' hid
        simp [ne] }

end Keeps

/-- What the steps of others leave to process `i`. -/
structure Frame (P : Policy) (i : JobId) (x y : Ledger) : Prop where
  holds : ∀ key, x.Holds i key → y.Holds i key
  drew : ∀ u, x.Drew i u → y.Drew i u
  tables : Keeps P (x.Drew i) (fun m => x.Holds i (P.lockKey m)) x.tables y.tables

theorem Keeps.weaken {P : Policy} {drew drew' held held' : Uuid → Prop} {t t' : Tables}
    (h : Keeps P drew held t t') (hd : ∀ u, drew' u → drew u) (hh : ∀ m, held' m → held m) :
    Keeps P drew' held' t t' :=
  { h with
    unused := fun u hu => h.unused u (hd u hu)
    stray := fun hs u hu => h.stray hs u (hd u hu)
    heldItems := fun m hm => h.heldItems m (hh m hm)
    heldRows := fun m hm => h.heldRows m (hh m hm)
    heldCandidates := fun m hm => h.heldCandidates m (hh m hm) }

theorem Frame.refl {P : Policy} {i : JobId} (x : Ledger) : Frame P i x x :=
  ⟨fun _ h => h, fun _ h => h, .refl _⟩

theorem Frame.trans {P : Policy} {i : JobId} {x y z : Ledger} (h : Frame P i x y)
    (h' : Frame P i y z) : Frame P i x z where
  holds := fun key hx => h'.holds key (h.holds key hx)
  drew := fun u hx => h'.drew u (h.drew u hx)
  tables := h.tables.trans (h'.tables.weaken h.drew fun _ hm => h.holds _ hm)

namespace Commit

variable {P : Policy} {i j : JobId} {x : Ledger} {t : Tables}

theorem drew_ne (hx : x.Inv P) (h : j ≠ i) {u v : Uuid} (hu : x.Drew i u) (hv : x.Drew j v) :
    u ≠ v := by
  rintro rfl
  have := List.inj_on_of_nodup_map hx.drawn hu hv rfl
  exact h (Prod.mk.inj this).2.symm

theorem not_holds (hx : x.Inv P) (h : j ≠ i) {key : Int} (hj : x.Holds j key) :
    ¬ x.Holds i key :=
  fun hi => h (hx.locks _ hj _ hi rfl)

theorem enter_keeps (hx : x.Inv P) (h : j ≠ i) {m b : Uuid} {item : Option NewsItem}
    (enter : Resolves P x j m b item) :
    Keeps P (x.Drew i) (fun m => x.Holds i (P.lockKey m)) x.tables (x.tables.addItem item) := by
  cases item with
  | none =>
    rw [Tables.addItem_none]
    exact .refl _
  | some o =>
    obtain ⟨hm, _, store⟩ := enter.store o rfl
    exact .addItem (fun u hu => drew_ne hx h hu store.drew) (not_holds hx h store.locked)

theorem candidate_keeps (hx : x.Inv P) (h : j ≠ i) {m b : Uuid} {c : String}
    {item : Option NewsItem} (enter : Resolves P x j m b item) (batch : x.tables.HasBatch b m) :
    Keeps P (x.Drew i) (fun m => x.Holds i (P.lockKey m)) x.tables
      ((x.tables.addItem item).addCandidate b c) := by
  refine (enter_keeps hx h enter).trans (.addCandidate ?_)
  rintro m' hm' ⟨row', hr', hid', rfl⟩
  obtain ⟨row, hr, hid, rfl⟩ := batch
  obtain rfl := hx.rows.unique hr hr' (hid.trans hid'.symm)
  exact not_holds hx h enter.locked hm'

/-- The log of a close is added while its batch still counts as open, so that it takes no stray. -/
theorem gather_keeps (hx : x.Inv P) (h : j ≠ i) {t : Tables} {row : NewsBatch}
    {log : Option LogHead} (g : Gathers x j t row log) (rows : Rows (x.drawn.map (·.1)) t)
    (mem : row ∈ t.batches) (status : row.status = .opened)
    (locked : x.Holds j (P.lockKey row.marketId)) {n : Nat} :
    Keeps P (x.Drew i) (fun m => x.Holds i (P.lockKey m)) t
      ((t.setBatch row.id n .closed).addLog log) := by
  cases log with
  | none =>
    rw [Tables.addLog_none]
    exact .setBatch rows.batchIds mem status (not_holds hx h locked)
  | some log =>
    have logged : Keeps P (x.Drew i) (fun m => x.Holds i (P.lockKey m)) t (t.addLog (some log)) := by
      refine .addLog (fun u hu => drew_ne hx h hu g.1) (fun u _ => ?_) ?_
      · by_cases e : u = log.batchId
        · exact .inr fun unused => unused.batch row mem (g.2.2.2.1.symm.trans e.symm)
        · exact .inl e
      · intro _ u _ stray hu
        obtain ⟨o, ho, e, _, hb⟩ := g.mem_ids.mp hu
        simp [(stray.closed o ho e _ hb).2 row mem rfl] at status
    exact logged.trans (.setBatch (t := t.addLog (some log)) rows.batchIds mem status
      (not_holds hx h locked))

theorem keeps (hx : x.Inv P) (h : j ≠ i) (hc : Commit P j x t) :
    Keeps P (x.Drew i) (fun m => x.Holds i (P.lockKey m)) x.tables t := by
  cases hc with
  | nothing => exact .refl _
  | opened row drew unused _ _ _ => exact .openBatch unused fun u hu => drew_ne hx h hu drew
  | alone item log store batch solo apart =>
    have items : Keeps P (x.Drew i) (fun m => x.Holds i (P.lockKey m)) x.tables
        (x.tables.addItem (some item)) :=
      .addItem (fun u hu => drew_ne hx h hu store.drew) (not_holds hx h store.locked)
    refine items.trans (.addLog (fun u hu => drew_ne hx h hu solo.drew)
      (fun u hu => .inl (drew_ne hx h hu solo.drewKey)) ?_)
    intro _ u hu _
    simpa [solo.ids] using drew_ne hx h hu store.drew
  | solo log id solo stray =>
    refine .addLog (fun u hu => drew_ne hx h hu solo.drew)
      (fun u hu => .inl (drew_ne hx h hu solo.drewKey)) ?_
    intro hs u hu _
    simpa [solo.ids] using drew_ne hx h hu (stray hs).1
  | repeated m b c item enter batch seen => exact enter_keeps hx h enter
  | late m b c item enter batch new closed => exact candidate_keeps hx h enter batch
  | counted c row item enter new mem status more =>
    exact (candidate_keeps hx h enter ⟨row, mem, rfl, rfl⟩).trans
      (.setBatch (t := (x.tables.addItem item).addCandidate row.id c) hx.rows.batchIds mem status
        (not_holds hx h enter.locked))
  | closed c row item log enter new mem status last gather =>
    have batch : x.tables.HasBatch row.id row.marketId := ⟨row, mem, rfl, rfl⟩
    exact (candidate_keeps hx h enter batch).trans (gather_keeps hx h (gather.addCandidate row.id c)
      ((enter.rows hx batch).addCandidate c ⟨row, mem, rfl⟩) mem status enter.locked)
  | forced row log locked mem status gather =>
    exact gather_keeps hx h gather hx.rows mem status locked

end Commit

/-- A step of another party. -/
theorem Act.frame {P : Policy} {a : Option JobId} {i : JobId} {x y : Ledger} (h : Act P a x y)
    (hx : x.Inv P) (ha : a ≠ some i) : Frame P i x y := by
  cases h with
  | stay => exact .refl x
  | lock key free => exact ⟨fun _ hk => List.mem_cons_of_mem _ hk, fun _ h => h, .refl _⟩
  | draw u fresh => exact ⟨fun _ h => h, fun _ hu => List.mem_cons_of_mem _ hu, .refl _⟩
  | post p promised => exact ⟨fun _ h => h, fun _ h => h, .refl _⟩
  | @commit j _ t hc =>
    have ne : j ≠ i := fun e => ha (congrArg some e)
    refine ⟨fun key hk => ?_, fun _ h => h, hc.keeps hx ne⟩
    exact List.mem_filter.mpr ⟨hk, by simpa using Ne.symm ne⟩

end NewsNotifier
