import NewsNotifier.IdempotencyKeys

namespace NewsNotifier

open Interleaving

namespace Tables

/-- The item is in a batch that is still open, or listed in a log. -/
def Safe (t : Tables) (o : NewsItem) : Prop :=
  (∃ row ∈ t.batches, o.batchId = some row.id ∧ row.status = .opened) ∨ o.id ∈ t.listed

end Tables

/-- A new item of a batch goes into an open one. -/
def IntoOpen (t t' : Tables) : Prop :=
  ∀ o ∈ t'.items, o ∉ t.items → ∀ b, o.batchId = some b →
    ∃ row ∈ t.batches, row.id = b ∧ row.status = .opened

namespace Commit

variable {i : JobId} {x : Ledger} {t : Tables}

/-- A close lists every item of its batch and leaves the other open batches open. -/
theorem gathered_safe {t : Tables} {row : NewsBatch} {log : Option LogHead} {n : Nat}
    (rows : Rows (x.drawn.map (·.1)) t) (g : Gathers x i t row log) (mem : row ∈ t.batches)
    {o : NewsItem} (ho : o ∈ t.items) (h : t.Safe o) :
    ((t.setBatch row.id n .closed).addLog log).Safe o := by
  have listed : o.id ∈ t.listed → o.id ∈ ((t.setBatch row.id n .closed).addLog log).listed := by
    intro hl
    cases log with
    | none => rwa [Tables.addLog_none]
    | some log =>
      rw [Tables.listed_addLog]
      exact List.mem_append_left _ hl
  rcases h with ⟨r, hr, hb, hs⟩ | hl
  · by_cases same : r.id = row.id
    · right
      have market : o.marketId = row.marketId := by
        obtain ⟨r', hr', hid, hm⟩ := rows.itemBatch o ho _ hb
        obtain rfl := rows.unique hr' mem (hid.trans same)
        exact hm.symm
      rw [same] at hb
      cases log with
      | none => exact absurd hb (g o ho market)
      | some log =>
        rw [Tables.listed_addLog]
        exact List.mem_append_right _ (g.mem_ids.mpr ⟨o, ho, rfl, market, hb⟩)
    · exact .inl ⟨r, (Tables.mem_setBatch_of_ne same).mpr hr, hb, hs⟩
  · exact .inr (listed hl)

theorem safe_items (h : Commit plainPolicy i x t) (hx : x.Inv plainPolicy)
    (kept : ∀ o ∈ x.tables.items, x.tables.Safe o) (open_ : IntoOpen x.tables t) :
    ∀ o ∈ t.items, t.Safe o := by
  have entered : ∀ {m b : Uuid} {item : Option NewsItem}, Resolves plainPolicy x i m b item →
      (∀ o ∈ item, ∃ row ∈ x.tables.batches, row.id = b ∧ row.status = .opened) →
      ∀ o ∈ (x.tables.addItem item).items, (x.tables.addItem item).Safe o := by
    intro m b item enter hb o ho
    rcases List.mem_append.mp ho with ho | ho
    · exact kept o ho
    · have some_o : o ∈ item := by simpa using ho
      obtain ⟨row, hr, hid, hs⟩ := hb o some_o
      exact .inl ⟨row, hr, hid ▸ (enter.store o some_o).2.1, hs⟩
  have fresh : ∀ {m b : Uuid} {item : Option NewsItem}, Resolves plainPolicy x i m b item →
      ∀ o ∈ item, o ∉ x.tables.items :=
    fun enter o ho mem => (enter.store o ho).2.2.unused.item o mem rfl
  have logged : ∀ {t' : Tables} {log : LogHead} {o : NewsItem}, t'.Safe o → (t'.addLog (some log)).Safe o := by
    rintro t' log o (h | h)
    · exact .inl h
    · exact .inr (by rw [Tables.listed_addLog]; exact List.mem_append_left _ h)
  cases h with
  | nothing => exact kept
  | opened row _ _ _ _ _ =>
    intro o ho
    rcases kept o ho with ⟨r, hr, h⟩ | h
    · exact .inl ⟨r, List.mem_append_left _ hr, h⟩
    · exact .inr h
  | alone item log store batch solo apart =>
    intro o ho
    rcases List.mem_append.mp ho with ho | ho
    · exact logged (kept o ho)
    · obtain rfl : o = item := by simpa using ho
      right
      rw [Tables.listed_addLog, solo.ids]
      simp
  | solo log id solo stray => exact fun o ho => logged (kept o ho)
  | repeated m b c item enter batch seen =>
    refine entered enter fun o ho => ?_
    exact open_ o (List.mem_append_right _ (by simpa using ho)) (fresh enter o ho) b (enter.store o ho).2.1
  | late m b c item enter batch new closed =>
    intro o ho
    rcases List.mem_append.mp ho with ho | ho
    · exact kept o ho
    · have some_o : o ∈ item := by simpa using ho
      obtain ⟨row, hr, hid, hs⟩ := open_ o (List.mem_append_right _ ho) (fresh enter o some_o) b
        (enter.store o some_o).2.1
      simp [closed.2 row hr hid] at hs
  | counted c row item enter new mem status more =>
    intro o ho
    rcases entered enter (fun _ _ => ⟨row, mem, rfl, status⟩) o ho with ⟨r, hr, hb, hs⟩ | h
    · by_cases same : r.id = row.id
      · refine .inl ⟨row.set (row.resolvedCount + 1) .opened, Tables.mem_setBatch.mpr
          ⟨row, mem, by simp⟩, ?_, rfl⟩
        rw [hb, same]
        rfl
      · exact .inl ⟨r, (Tables.mem_setBatch_of_ne same).mpr hr, hb, hs⟩
    · exact .inr h
  | closed c row item log enter new mem status last gather =>
    intro o ho
    have rows := (enter.rows hx ⟨row, mem, rfl, rfl⟩).addCandidate c ⟨row, mem, rfl⟩
    have items : o ∈ ((x.tables.addItem item).addCandidate row.id c).items := by
      cases log <;> simpa [Tables.addLog, Tables.setBatch] using ho
    exact gathered_safe rows (gather.addCandidate row.id c) mem items
      (entered enter (fun _ _ => ⟨row, mem, rfl, status⟩) o items)
  | forced row log locked mem status gather =>
    intro o ho
    have items : o ∈ x.tables.items := by
      cases log <;> simpa [Tables.addLog, Tables.setBatch] using ho
    exact gathered_safe hx.rows gather mem items (kept o items)

end Commit

namespace Commit

variable {i : JobId} {x : Ledger} {t : Tables}

/-- An item that goes into no open batch is in no delivery of the same commit either. -/
theorem unsafe_item (h : Commit plainPolicy i x t) (hx : x.Inv plainPolicy) {items : List NewsItem}
    (eq : t.items = x.tables.items ++ items) {o : NewsItem} (ho : o ∈ items) {b : Uuid}
    (hb : o.batchId = some b) (shut : ∀ row ∈ x.tables.batches, row.id = b → row.status ≠ .opened) :
    ¬t.Safe o := by
  have none_new : t.items = x.tables.items → ¬t.Safe o := by
    intro same
    rw [eq] at same
    simp [List.append_right_eq_self.mp same] at ho
  have entered : ∀ (item : Option NewsItem), t.items = x.tables.items ++ item.toList → o ∈ item := by
    intro item h
    have := List.append_cancel_left (eq.symm.trans h)
    simpa [this] using ho
  have outside : ∀ {m b' : Uuid} {item : Option NewsItem}, Resolves plainPolicy x i m b' item →
      o ∈ item → t.batches = x.tables.batches → t.logs = x.tables.logs → ¬t.Safe o := by
    rintro m b' item enter mem hbatches hlogs (⟨row, hr, hid, hs⟩ | listed)
    · rw [hb] at hid
      exact shut row (hbatches ▸ hr) (Option.some.inj hid).symm hs
    · have listed : o.id ∈ x.tables.listed := by simpa only [Tables.listed, hlogs] using listed
      obtain ⟨o', ho', e, _⟩ := (hx.listing True.intro).stored _ listed
      exact (enter.store o mem).2.2.unused.item o' ho' e
  have opened : ∀ {row : NewsBatch} {item : Option NewsItem},
      Resolves plainPolicy x i row.marketId row.id item → o ∈ item → row ∈ x.tables.batches →
      row.status ≠ .opened := by
    intro row item enter mem hr
    have := (enter.store o mem).2.1
    rw [hb] at this
    exact shut row hr (Option.some.inj this).symm
  cases h with
  | nothing => exact none_new rfl
  | opened => exact none_new rfl
  | solo => exact none_new rfl
  | alone item log store batch =>
    obtain rfl : item = o := by simpa using entered (some item) rfl
    simp [batch] at hb
  | repeated m b' c item enter => exact outside enter (entered item rfl) rfl rfl
  | late m b' c item enter => exact outside enter (entered item rfl) rfl rfl
  | counted c row item enter new mem status => exact absurd status (opened enter (entered item rfl) mem)
  | closed c row item log enter new mem status =>
    refine absurd status (opened enter (entered item ?_) mem)
    cases log <;> rfl
  | forced row log =>
    refine none_new ?_
    cases log <;> rfl

end Commit

def Write.item : Write → Option NewsItem
  | .insertItem o => some o.deliver
  | _ => none

theorem after_items (db : Database) (l : List Write) :
    (db.after l).tables.items = db.tables.items ++ l.filterMap Write.item := by
  induction l generalizing db with
  | nil => simp
  | cons w l ih =>
    rw [Database.after_cons, ih]
    cases w with
    | insertItem o => simp [Write.item, Write.apply, Database.tables]
    | setDelivered id =>
      have := Write.quiet_tables (w := .setDelivered id) rfl db
      simp only [this, List.filterMap_cons, Write.item]
    | _ => rfl

/-- Every staged item that belongs to a batch finds that batch open. -/
def intoOpen (db : Database) (l : List Write) : Bool :=
  l.all fun w =>
    match w with
    | .insertItem o =>
      match o.batchId with
      | none => true
      | some b => db.batches.any fun row => row.id = b && row.status = .opened
    | _ => true

/-- The runs in which every commit of a new item is made while its batch is open. -/
def storesInOpen (_ : JobId) (s : Stmt) (_ : Answer s) (l : List Write) (d : Data) : Bool :=
  !s.commits || intoOpen d.db l

/-- The item is in a batch that is still open, or listed in a log. -/
def Database.safe (db : Database) (o : NewsItem) : Bool :=
  (db.batches.any fun row => o.batchId = some row.id && row.status = .opened) ||
    db.logs.any fun log => log.newsItemIds.contains o.id

theorem safe_tables {db : Database} {o : NewsItem} : db.safe o = true ↔ db.tables.Safe o.deliver := by
  simp [Database.safe, Tables.Safe, Database.tables, Tables.listed, DeliveryLog.head, NewsItem.deliver]

theorem intoOpen_tables {db db' : Database} {l : List Write} (h : intoOpen db l = true)
    (items : db'.tables.items = (db.after l).tables.items) : IntoOpen db.tables db'.tables := by
  intro o ho new b hb
  rw [items, after_items] at ho
  rcases List.mem_append.mp ho with ho | ho
  · exact absurd ho new
  · obtain ⟨w, hw, e⟩ := List.mem_filterMap.mp ho
    cases w with
    | insertItem o' =>
      obtain rfl := Option.some.inj e
      have ok := List.all_eq_true.mp h _ hw
      have hb' : o'.batchId = some b := hb
      simp only [hb', List.any_eq_true, Bool.and_eq_true, decide_eq_true_eq] at ok
      exact ok
    | _ => simp [Write.item] at e

/-- The ledger's contract, for runs whose items go into open batches. -/
def safeContract : Contract JobId Raised Data where
  inv d := d.ledger.Inv plainPolicy ∧ ∀ o ∈ d.ledger.tables.items, d.ledger.tables.Safe o
  act a d d' := Act plainPolicy a d.ledger d'.ledger ∧ IntoOpen d.ledger.tables d'.ledger.tables
  fault := (ledgerContract plainPolicy).fault

theorem Act.safe {a : Option JobId} {x y : Ledger} (h : Act plainPolicy a x y)
    (hx : x.Inv plainPolicy) (safe : ∀ o ∈ x.tables.items, x.tables.Safe o)
    (open_ : IntoOpen x.tables y.tables) : ∀ o ∈ y.tables.items, y.tables.Safe o := by
  cases h with
  | stay | lock | draw | post => exact safe
  | commit hc => exact hc.safe_items hx safe open_

theorem intoOpen_same {t t' : Tables} (h : t'.items = t.items) : IntoOpen t t' :=
  fun _ ho new => absurd (h ▸ ho) new

theorem safeContract_governs (lib : PyLib) :
    safeContract.Governs ((newsSys lib plainTask).restrict storesInOpen) := by
  refine (plainPolicy_governs lib).restrict (fun _ h => h.1) (fun _ _ _ h => h.1) (fun _ h => h)
    ?_ ?_ ?_ ?_ ?_
  · rintro a d d' ⟨hi, safe⟩ ⟨act, open_⟩
    exact ⟨act.inv hi, act.safe hi safe open_⟩
  · intro i s r l d l' d' _ ok hx act
    refine ⟨act, ?_⟩
    cases hs : s.commits with
    | false => exact intoOpen_same (congrArg (fun db => db.tables.items) (exec_db hs hx))
    | true =>
      have into : intoOpen d.db l = true := by simpa [storesInOpen, hs] using ok
      cases exec_outcome hx with
      | committed | marketInserted => exact intoOpen_tables into rfl
      | _ => exact intoOpen_same rfl
  · rintro i ⟨task, cfg⟩ d p d' ⟨hi, _⟩ hs
    refine ⟨((plainPolicy_governs lib).start hs hi).1, ?_⟩
    obtain ⟨_, _, _, _, rfl⟩ := newsSys_start hs
    exact intoOpen_same rfl
  · rintro i d ⟨hi, _⟩
    exact ⟨(plainPolicy_governs lib).stop hi, intoOpen_same rfl⟩
  · rintro t d d' ⟨hi, _⟩ he
    refine ⟨(plainPolicy_governs lib).env he hi, ?_⟩
    obtain ⟨_, rfl⟩ := newsSys_env he
    exact intoOpen_same rfl

theorem not_intoOpen {db : Database} {l : List Write} (h : intoOpen db l = false) :
    ∃ o b, Write.insertItem o ∈ l ∧ o.batchId = some b ∧
      ∀ row ∈ db.batches, row.id = b → row.status ≠ .opened := by
  obtain ⟨w, hw, bad⟩ := List.all_eq_false.mp h
  cases w with
  | insertItem o =>
    cases hb : o.batchId with
    | none => simp [hb] at bad
    | some b => exact ⟨o, b, hw, hb, by simpa [hb] using bad⟩
  | _ => simp at bad

/-- A commit that stores an item into a batch that is not open leaves it outside every delivery. -/
theorem stored_lost {lib : PyLib} {d₀ : Data} (h₀ : d₀.Initial) {w : NewsWorld}
    (h : Reachable (newsSys lib plainTask) d₀ w) {i : JobId} {next : Unit → Program Unit}
    {l : List Write} (hp : w.proc i = some (.stmt .commit next, l))
    (into : intoOpen w.data.db l = false) :
    ∃ o ∈ (w.data.db.after l).items, (w.data.db.after l).safe o = false := by
  have sound := (plainPolicy_governs lib).sound h₀.inv h
  obtain ⟨o, b, ho, hb, shut⟩ := not_intoOpen into
  have act : Act plainPolicy (some i) w.data.ledger
      ({ w.data with db := w.data.db.after l }.release i).ledger :=
    (sound.proc hp w.data .refl sound.data () [] _ rfl).1
  have items := after_items w.data.db l
  have staged : o.deliver ∈ l.filterMap Write.item := List.mem_filterMap.mpr ⟨_, ho, rfl⟩
  have mem : o.deliver ∈ (w.data.db.after l).tables.items :=
    items ▸ List.mem_append_right _ staged
  obtain ⟨o', ho', same⟩ := List.mem_map.mp mem
  refine ⟨o', ho', ?_⟩
  rw [Bool.eq_false_iff]
  intro safe
  have safe : (w.data.db.after l).tables.Safe o.deliver := same ▸ safe_tables.mp safe
  generalize hy : ({ w.data with db := w.data.db.after l }.release i).ledger = y at act
  have tables : (w.data.db.after l).tables = y.tables := by rw [← hy]; rfl
  rw [tables] at safe items
  cases act with
  | stay | lock | draw | post =>
    simp [List.append_right_eq_self.mp items.symm] at staged
  | commit hc => exact hc.unsafe_item sound.data items staged hb shut safe

/-- In the runs whose commits put new items of a batch into an open batch only, every stored item
is in an open batch or listed in a delivery; in any run, the first other commit loses an item. -/
theorem stored_not_lost (lib : PyLib) {d₀ : Data} (h₀ : d₀.Initial) :
    (∀ w : NewsWorld, Reachable ((newsSys lib plainTask).restrict storesInOpen) d₀ w →
      ∀ o ∈ w.data.db.items, w.data.db.safe o = true) ∧
    ∀ w : NewsWorld, Reachable (newsSys lib plainTask) d₀ w → ∀ i next l,
      w.proc i = some (.stmt .commit next, l) → storesInOpen i .commit () l w.data = false →
        ∃ o ∈ (w.data.db.after l).items, (w.data.db.after l).safe o = false := by
  constructor
  · intro w h o ho
    have init : safeContract.inv d₀ :=
      ⟨h₀.inv, by simp [Data.ledger, Database.tables, h₀.items]⟩
    exact safe_tables.mpr (((safeContract_governs lib).sound init h).data.2 _ (List.mem_map_of_mem ho))
  · intro w h i next l hp shut
    exact stored_lost h₀ h hp (by simpa [storesInOpen, Stmt.commits] using shut)

/-- A batch of two, one of its candidates stored. -/
def openBatchSample : List NewsMove :=
  [.start (.call 1) (.openBatch 1 2, sampleSettings)] ++
  execs sampleLib (sampleOracle "t") (.call 1) 2 ++
  [.start (.processCandidate 1 "a") (.job (.processCandidate 1 (sampleCandidate "a") (some 2)),
    sampleSettings)] ++
  execs sampleLib (sampleOracle "t") (.processCandidate 1 "a") 13

theorem stored_not_lost_sample : ∃ w : NewsWorld,
    w.data.db.items.map (·.batchId) = [some 2] ∧ ∀ o ∈ w.data.db.items, w.data.db.safe o = true := by
  have run : (((newsSys sampleLib plainTask).restrict storesInOpen).run sampleWorld
      openBatchSample).map (fun w => w.data.db.items.map (·.batchId) == [some 2]) = some true := by
    decide +kernel
  obtain ⟨w, steps, hp⟩ := Sys.run_reaches run
  exact ⟨w, by simpa using hp, (stored_not_lost sampleLib sampleData_initial).1 w steps⟩

/-- The batch is closed by the sweep, its straggler stores its item, and the worker is killed
before the straggler's own delivery; the re-run finds its URL and its slot taken. -/
def lostStraggler : List NewsMove :=
  [.start (.call 1) (.openBatch 1 1, sampleSettings)] ++
  execs sampleLib (sampleOracle "t") (.call 1) 2 ++
  [.stop (.call 1), .start (.processCandidate 1 "a")
    (.job (.processCandidate 1 (sampleCandidate "a") (some 2)), sampleSettings),
    .start (.call 3) (.forceCloseBatch 1 2, sampleSettings)] ++
  execs sampleLib (sampleOracle "t") (.call 3) 4 ++ [.stop (.call 3)] ++
  execs sampleLib (sampleOracle "t") (.processCandidate 1 "a") 13 ++
  [.stop (.processCandidate 1 "a"), .start (.processCandidate 1 "a")
    (.job (.processCandidate 1 (sampleCandidate "a") (some 2)), sampleSettings)] ++
  execs sampleLib (sampleOracle "t") (.processCandidate 1 "a") 10 ++
  [.stop (.processCandidate 1 "a")]

theorem lost_straggler : ∃ w : NewsWorld, Reachable (newsSys sampleLib plainTask) sampleData w ∧
    w.data.redis.running = [] ∧ w.data.redis.queue = [] ∧ w.data.db.logs = [] ∧
    ∃ o ∈ w.data.db.items, w.data.db.safe o = false := by
  have run : ((newsSys sampleLib plainTask).run sampleWorld lostStraggler).map (fun w =>
      w.data.redis.running.isEmpty && w.data.redis.queue.isEmpty && w.data.db.logs.isEmpty &&
        w.data.db.items.any fun o => !w.data.db.safe o) = some true := by
    decide +kernel
  obtain ⟨w, steps, hp⟩ := Sys.run_reaches run
  simp only [Bool.and_eq_true, List.isEmpty_iff, List.any_eq_true, Bool.not_eq_true'] at hp
  exact ⟨w, steps, hp.1.1.1, hp.1.1.2, hp.1.2, hp.2⟩

end NewsNotifier
