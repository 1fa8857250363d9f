import NewsNotifier.PausedTasks
import NewsNotifier.CommittedRows

namespace NewsNotifier

open Interleaving

/-- A step by which no item, batch or market row changes, no message leaves, and no log changes; the
logs that appear are pending and unattempted, and list items that are committed. -/
structure Silent (d d' : Data) : Prop where
  items : d'.db.items = d.db.items
  markets : d'.db.markets = d.db.markets
  batches : d'.db.batches.map (·.id) = d.db.batches.map (·.id)
  sent : d'.sent = d.sent
  logs : ∃ new, d'.db.logs = d.db.logs ++ new ∧ ∀ log ∈ new, log.status = .pending ∧ log.attempt = 0 ∧
    ∀ id ∈ log.newsItemIds, ∃ item ∈ d.db.items, item.id = id

/-- What the session of a paused market's task may have staged. -/
def Write.rests (db : Database) : Write → Prop
  | .insertCandidate _ | .insertFailure _ | .setBatch _ _ _ => True
  | .insertLog row => row.status = .pending ∧ row.attempt = 0 ∧ ∀ id ∈ row.newsItemIds, ∃ item ∈ db.items, item.id = id
  | _ => False

def Write.isItem : Write → Bool
  | .insertItem _ => true
  | _ => false

/-- The market rows keep their ids and statuses. -/
def Write.keepsStatus : Write → Prop
  | .insertMarket _ | .setMarket _ (.status _) => False
  | _ => True

theorem after_rests {db₀ : Database} {l : List Write} (rests : ∀ x ∈ l, x.rests db₀) (db : Database) :
    (db.after l).items = db.items ∧ (db.after l).markets = db.markets ∧
      (db.after l).batches.map (·.id) = db.batches.map (·.id) ∧
      ∃ new, (db.after l).logs = db.logs ++ new ∧ ∀ log ∈ new, (Write.insertLog log).rests db₀ := by
  induction l generalizing db with
  | nil => exact ⟨rfl, rfl, rfl, [], (List.append_nil _).symm, by simp⟩
  | cons x l ih =>
    obtain ⟨items, markets, batches, new, logs, fresh⟩ :=
      ih (fun y hy => rests y (List.mem_cons_of_mem _ hy)) (x.apply db)
    have first := rests x List.mem_cons_self
    rw [Database.after_cons, items, markets, batches, logs]
    cases x with
    | insertCandidate | insertFailure => exact ⟨rfl, rfl, rfl, new, rfl, fresh⟩
    | setBatch b n s =>
      have ids : ∀ row, (NewsBatch.set n s row).id = row.id := fun _ => rfl
      exact ⟨rfl, rfl, KeyedRows.map_update ids _, new, rfl, fresh⟩
    | insertLog row =>
      refine ⟨rfl, rfl, rfl, row :: new, List.append_assoc _ [row] new, fun log hl => ?_⟩
      rcases List.mem_cons.mp hl with rfl | hl
      · exact first
      · exact fresh log hl
    | _ => exact first.elim

/-- An item's row stays. -/
theorem item_after {db : Database} {id : Uuid} (h : ∃ item ∈ db.items, item.id = id) (l : List Write) :
    ∃ item ∈ (db.after l).items, item.id = id := by
  induction l generalizing db with
  | nil => exact h
  | cons x l ih =>
    refine ih ?_
    obtain ⟨item, mem, key⟩ := h
    cases x with
    | insertItem row => exact ⟨item, List.mem_append_left _ mem, key⟩
    | setDelivered id' =>
      refine ⟨_, KeyedRows.mem_update.mpr ⟨item, mem, rfl⟩, ?_⟩
      split <;> exact key
    | _ => exact ⟨item, mem, key⟩

theorem item_before {db : Database} {l : List Write} (none : ∀ x ∈ l, x.isItem = false) {item : NewsItem}
    (mem : item ∈ (db.after l).items) : ∃ item' ∈ db.items, item'.id = item.id := by
  induction l generalizing db with
  | nil => exact ⟨item, mem, rfl⟩
  | cons x l ih =>
    obtain ⟨item', mem', key⟩ := ih (fun y hy => none y (List.mem_cons_of_mem _ hy)) mem
    cases x with
    | insertItem row => simp [Write.isItem] at none
    | setDelivered id =>
      obtain ⟨item'', mem'', rfl⟩ := KeyedRows.mem_update.mp mem'
      refine ⟨item'', mem'', ?_⟩
      split at key <;> exact key
    | _ => exact ⟨item', mem', key⟩

/-- The ids of the markets with their statuses. -/
def Database.statuses (db : Database) : List (Uuid × MarketStatus) := db.markets.map fun m => (m.id, m.status)

theorem statuses_after {l : List Write} (keeps : ∀ x ∈ l, x.keepsStatus) (db : Database) :
    (db.after l).statuses = db.statuses := by
  induction l generalizing db with
  | nil => rfl
  | cons x l ih =>
    rw [Database.after_cons, ih fun y hy => keeps y (List.mem_cons_of_mem _ hy)]
    have first := keeps x List.mem_cons_self
    cases x with
    | insertMarket => exact first.elim
    | setMarket id c =>
      have keep : ∀ m : Market, ((c.apply m).id, (c.apply m).status) = (m.id, m.status) := by
        intro m
        cases c <;> first | rfl | exact first.elim
      exact KeyedRows.map_update keep db.markets
    | _ => rfl

theorem isActive_statuses (db : Database) (m : Uuid) :
    db.isActive m = db.statuses.any fun e => e.1 = m && e.2 = .active := by
  rw [Database.isActive, Database.statuses, List.any_map]
  rfl

theorem isActive_after {l : List Write} (keeps : ∀ x ∈ l, x.keepsStatus) (db : Database) (m : Uuid) :
    (db.after l).isActive m = db.isActive m := by
  rw [isActive_statuses, isActive_statuses, statuses_after keeps]

theorem status_of_inactive {db : Database} {m : Uuid} (paused : db.isActive m = false) {market : Market}
    (mem : market ∈ db.markets) (id : market.id = m) : market.status ≠ .active := by
  intro active
  have some : db.isActive m = true := List.any_eq_true.mpr ⟨market, mem, by simp [id, active]⟩
  simp [paused] at some

/-- The reads of the six jobs that decide by a market's status, but the re-check under the lock. -/
def Stmt.guards : Stmt → Bool
  | .getMarket _ | .dueMarkets _ | .stuckDeliveries _ | .stuckBatches _ => true
  | _ => false

def Stmt.rechecks : Stmt → Bool
  | .marketStatus _ => true
  | _ => false

section Reads

variable {lib : PyLib} {i : JobId} {l l' : List Write} {d d' : Data} {m : Uuid}

/-- What a deciding read of a paused market answers. -/
theorem guards_paused {s : Stmt} {r : Answer s} (h : exec lib i s r l d = some (l', d'))
    (keeps : ∀ x ∈ l, x.keepsStatus)
    (paused : s.guards = true → d.db.isActive m = false) : readsPaused m s r := by
  have view : s.guards = true → (d.db.after l).isActive m = false :=
    fun hs => (isActive_after keeps d.db m).trans (paused hs)
  unfold readsPaused
  split
  next id market =>
    intro same
    obtain ⟨ok, _, _⟩ := answered_eq h
    obtain ⟨mem, key⟩ := KeyedRows.key_of_find (of_decide_eq_true ok).symm
    exact status_of_inactive (view rfl) mem (key.trans same)
  next cutoff ids =>
    obtain ⟨ok, _, _⟩ := answered_eq h
    intro mem
    obtain ⟨market, hm, key⟩ := List.mem_map.mp ((List.isPerm_iff.mp ok).mem_iff.mp mem)
    obtain ⟨hm, due⟩ := List.mem_filter.mp hm
    simp only [Bool.and_eq_true, decide_eq_true_eq] at due
    exact status_of_inactive (view rfl) hm key due.1
  next cutoff rows =>
    obtain ⟨ok, _, _⟩ := answered_eq h
    intro row mem same
    obtain ⟨batch, hb, rfl⟩ := List.mem_map.mp ((List.isPerm_iff.mp ok).mem_iff.mp mem)
    have active := (List.mem_filter.mp hb).2
    simp only [Bool.and_eq_true, decide_eq_true_eq] at active
    have inactive := view rfl
    rw [← same, active.2] at inactive
    exact Bool.noConfusion inactive
  next => exact True.intro

theorem rechecks_paused {s : Stmt} {r : Answer s} (h : exec lib i s r l d = some (l', d'))
    (keeps : ∀ x ∈ l, x.keepsStatus) (paused : s.rechecks = true → d.db.isActive m = false) : rereadsPaused m s r := by
  unfold rereadsPaused
  split
  next id market => exact read_market h
  next id status =>
    intro same active
    obtain ⟨ok, _, _⟩ := answered_eq h
    have read := of_decide_eq_true ok
    rw [active] at read
    obtain ⟨market, found, status⟩ := Option.map_eq_some_iff.mp read.symm
    obtain ⟨mem, key⟩ := KeyedRows.key_of_find found
    exact status_of_inactive ((isActive_after keeps d.db m).trans (paused rfl)) mem (key.trans same) status
  next => exact True.intro

theorem reads_own {logId : Uuid} {s : Stmt} {r : Answer s} (h : exec lib i s r l d = some (l', d'))
    (own : ∀ log ∈ (d.db.after l).logs, log.id = logId → log.marketId = m) : readsOwn m logId s r := by
  unfold readsOwn
  split
  next id log =>
    intro same
    obtain ⟨ok, _, _⟩ := answered_eq h
    obtain ⟨mem, key⟩ := KeyedRows.key_of_find (of_decide_eq_true ok).symm
    exact own log mem (key.trans same)
  next => exact True.intro

end Reads

theorem Silent.same {d d' : Data} (db : d'.db = d.db) (sent : d'.sent = d.sent) : Silent d d' :=
  ⟨by rw [db], by rw [db], by rw [db], sent, [], by rw [db, List.append_nil], by simp⟩

theorem Rests.stages {asks : List NewsSaid → Job → Prop} {h : List NewsSaid} {s : Stmt} (rests : Rests asks h s)
    {x : Write} (stages : s.Stages x) : x.isItem = false ∧ x.keepsStatus ∧ ((∀ db, x.rests db) ∨
      ∃ m b ids u t, s = .insertLog m b ids ∧
        x = .insertLog ⟨u, m, b, ids, 0, .pending, none, none, false, [], t, none⟩) := by
  rcases stages with writes | ⟨row, watermark, rfl, rfl⟩
  · cases writes with
    | candidate | batch | closed => exact ⟨rfl, True.intro, .inl fun _ => True.intro⟩
    | item | opened => exact False.elim rests
    | log m b ids u t => exact ⟨rfl, True.intro, .inr ⟨m, b, ids, u, t, rfl, rfl⟩⟩
    | assigned x =>
      cases x with
      | insertFailure => exact ⟨rfl, True.intro, .inl fun _ => True.intro⟩
      | _ => exact False.elim rests
  · exact False.elim rests

section Executions

variable {lib : PyLib} {admits : Admits} {i : JobId} {job : Task × Settings} {w w' : NewsWorld}
  {tr before after : List NewsEvent} {e : NewsEvent} {asks : List NewsSaid → Job → Prop}

theorem steps_items (h : Steps (newsSys lib admits) w w') {id : Uuid} (old : ∃ item ∈ w.data.db.items, item.id = id) :
    ∃ item ∈ w'.data.db.items, item.id = id := by
  obtain ⟨l, same⟩ := steps_after h
  rw [same]
  exact item_after old l

/-- An event and the events before it, in the run. -/
theorem earlier_event (run : Execution (newsSys lib admits) i job w tr w') (split : tr = before ++ e :: after)
    {e₀ : NewsEvent} (mem : e₀ ∈ before) : ∃ w₀ w₁, w₀.data = e₀.data ∧ w₁.data = e.data ∧
      Steps (newsSys lib admits) w₀ w₁ ∧
      ∃ l d, exec lib i e₀.stmt e₀.answer e₀.before e₀.data = some (l, d) := by
  obtain ⟨w₁, _, _, _, first, at_, _, _, _⟩ := run.split split
  obtain ⟨w₀, w₂, l, d, _, at₀, hx, _, step, rest⟩ := first.event mem
  exact ⟨w₀, w₁, at₀, at_, .head step rest, l, d, hx⟩

variable (run : Execution (newsSys lib admits) i job w tr w')
  (rests : ∀ before e after, tr = before ++ e :: after → Rests asks (before.map Event.said) e.stmt)

include run rests

theorem rests_items (he : e ∈ tr) : ∀ x ∈ e.before, x.isItem = false := by
  refine staged_before (K := fun _ x => x.isItem = false) (fun _ _ h => h) run (fun e he x stages => ?_) he
  obtain ⟨before, after, split⟩ := List.append_of_mem he
  exact ((rests before e after split).stages stages).1

theorem listed_committed (split : tr = before ++ e :: after) {ids : List Uuid}
    (listed : Listed (before.map Event.said) ids) : ∀ id ∈ ids, ∃ item ∈ e.data.db.items, item.id = id := by
  obtain ⟨m, b, items, said, rfl⟩ := listed
  obtain ⟨e₀, mem, same⟩ := List.mem_map.mp said
  obtain ⟨w₀, w₁, at₀, at₁, later, l, d, hx⟩ := earlier_event run split mem
  have none := rests_items run rests (split ▸ List.mem_append_left _ mem)
  obtain ⟨s, r, l₀, d₀⟩ := e₀
  obtain ⟨rfl, answer⟩ := Sigma.mk.inj same
  obtain rfl := eq_of_heq answer
  intro id mem
  obtain ⟨item, hi, rfl⟩ := List.mem_map.mp mem
  obtain ⟨ok, _, _⟩ := answered_eq hx
  simp only [Bool.and_eq_true] at ok
  have view := List.mem_of_mem_filter (List.mem_of_mem_filter ((List.isPerm_iff.mp ok.1).mem_iff.mp hi))
  rw [← at₁]
  exact steps_items later (at₀ ▸ item_before none view)

theorem rests_staged (he : e ∈ tr) : ∀ x ∈ e.before, x.rests e.data.db := by
  refine staged_before (K := fun d x => x.rests d.db) (fun {v v'} step x old => ?_) run (fun e he x stages => ?_) he
  · cases x with
    | insertLog row => exact ⟨old.1, old.2.1, fun id hid => steps_items (.single step) (old.2.2 id hid)⟩
    | insertCandidate | insertFailure | setBatch => exact True.intro
    | _ => exact False.elim old
  · obtain ⟨before, after, split⟩ := List.append_of_mem he
    have now := rests before e after split
    rcases (now.stages stages).2.2 with all | ⟨m, b, ids, u, t, insert, rfl⟩
    · exact all e.data.db
    · rw [insert] at now
      exact ⟨rfl, rfl, listed_committed run rests split now⟩

/-- Every statement of a task that rests is silent. -/
theorem rests_silent (he : e ∈ tr) {l : List Write} {d : Data}
    (hx : exec lib i e.stmt e.answer e.before e.data = some (l, d)) : Silent e.data d := by
  obtain ⟨before, after, split⟩ := List.append_of_mem he
  have now := rests before e after split
  cases exec_outcome hx with
  | committed =>
    obtain ⟨items, markets, batches, new, logs, fresh⟩ := after_rests (rests_staged run rests he) e.data.db
    exact ⟨items, markets, batches, rfl, new, logs, fresh⟩
  | marketInserted row insert =>
    rw [insert] at now
    exact False.elim now
  | sent x sends =>
    generalize e.stmt = s at now sends
    cases sends <;> exact False.elim now
  | _ => exact .same rfl rfl

end Executions

end NewsNotifier
