import NewsNotifier.FiniteRuns
import NewsNotifier.FuturePolls
import NewsNotifier.SessionViews

namespace NewsNotifier

open Interleaving Prog

/-- The row that a request asks for was read off it, off the clock and off what was drawn, and its id is
what the session has just drawn. -/
structure Subscribed (cfg : Settings) (body : MarketSubscribeRequest) (said : List NewsSaid) (row : Market) : Prop where
  unknown : (⟨.marketByExternalId body.marketId, none⟩ : NewsSaid) ∈ said
  now : (⟨.utcnow, row.nextPollAt⟩ : NewsSaid) ∈ said
  secret : (⟨.encryptSecret body.callbackSecret, row.callbackSecretEncrypted⟩ : NewsSaid) ∈ said
  drawn : said.getLast? = some ⟨.uuid4, row.id⟩
  columns : row.externalMarketId = body.marketId ∧ row.description = body.marketDescription ∧
    row.resolutionDate = body.resolutionDate ∧ row.status = .active ∧ row.callbackUrl = body.callbackUrl ∧
    row.pollIntervalMinutes = requestedInterval cfg body ∧ row.lastPolledAt = none ∧ row.maxDeliveredPublishedAt = none

/-- A market is inserted for a request alone, as it asks, and never staged. -/
structure Subscribes (cfg : Settings) (task : Task) (said : List NewsSaid) (s : Stmt) : Prop where
  inserted : ∀ row, s = .insertMarket row → ∃ body, task = .subscribe body ∧ Subscribed cfg body said row
  unstaged : ∀ row, s ≠ .assign (.insertMarket row)

/-- The statements that insert no market. -/
def Stmt.marketless : Stmt → Prop
  | .insertMarket _ => False
  | .assign (.insertMarket _) => False
  | _ => True

theorem Stmt.marketless.subscribes {s : Stmt} (h : s.marketless) (cfg : Settings) (task : Task) (said : List NewsSaid) :
    Subscribes cfg task said s := by
  refine ⟨fun row same => ?_, fun row same => ?_⟩
  · subst same
    exact h.elim
  · subst same
    exact h.elim

theorem Stmt.reading.marketless {m : Uuid} {s : Stmt} (h : s.reading m) : s.marketless := by
  cases s <;> first | exact True.intro | exact h.elim

theorem Stmt.batching.marketless {m : Uuid} {s : Stmt} (h : s.batching m) : s.marketless := by
  cases s <;> first | exact True.intro | exact h.elim

theorem Stmt.delivering.marketless {s : Stmt} (h : s.delivering) : s.marketless := by
  unfold Stmt.delivering at h
  unfold Stmt.marketless
  split at h <;> first | exact True.intro | exact h.elim

section Programs

variable {lib : PyLib} {cfg : Settings}

theorem subscribe_subscribes (cfg : Settings) (body : MarketSubscribeRequest) :
    (subscribe cfg body).Obeys (Monitor.history (fun _ _ _ => True) (Subscribes cfg (.subscribe body)))
      (fun _ _ => True) (fun _ _ => True) [] := by
  have other : ∀ {s : Stmt} {said : List NewsSaid}, s.marketless → Subscribes cfg (.subscribe body) said s :=
    fun h => h.subscribes cfg _ _
  refine ⟨other True.intro, fun existing _ => ?_⟩
  simp only [Prog.ret_bind]
  cases existing with
  | some market => exact True.intro
  | none =>
    refine ⟨other True.intro, fun now _ => ⟨other True.intro, fun secret _ =>
      ⟨other True.intro, fun id _ => ⟨⟨fun row same => ⟨body, rfl, ?_⟩, fun row same => ?_⟩, fun inserted _ => ?_⟩⟩⟩⟩
    · obtain rfl := Stmt.insertMarket.inj same
      exact ⟨by simp [Monitor.history], by simp [Monitor.history], by simp [Monitor.history], by simp [Monitor.history],
        rfl, rfl, rfl, rfl, rfl, rfl, rfl, rfl⟩
    · cases same
    · cases inserted with
      | false => exact True.intro
      | true => exact ⟨other True.intro, fun _ _ => ⟨other True.intro, fun _ _ => True.intro⟩⟩

theorem marketless_serves : Serves Stmt.marketless where
  reads _ _ h := h.marketless
  commits := True.intro
  sets _ _ _ := True.intro
  aborts _ := True.intro
  deletes _ := True.intro

/-- Only a request to subscribe inserts a market. -/
theorem task_marketless (task : Task) : (∃ body, task = .subscribe body) ∨
    (taskProgram lib cfg task).Each Stmt.marketless fun _ => True := by
  have reads : ∀ m s, Stmt.reading m s → s.marketless := fun _ _ hs => hs.marketless
  have does : ∀ m s, Stmt.batching m s → s.marketless := fun _ _ hs => hs.marketless
  have sends : ∀ logId, (enqueueDelivery logId).Each Stmt.marketless fun _ => True :=
    enqueueDelivery_does fun _ => True.intro
  cases task with
  | subscribe body => exact .inl ⟨body, rfl⟩
  | job j =>
    cases j with
    | processMarket m =>
      exact .inr (processMarket_does m (fun _ => True.intro) reads does (fun _ => True.intro)
        (fun _ _ _ => True.intro) (fun _ _ _ => True.intro) (fun _ _ => True.intro) (fun _ _ _ => True.intro)
        (fun _ _ => True.intro) fun _ => True.intro)
    | processCandidate m c b =>
      exact .inr (processCandidate_does m (fun _ => True.intro) reads does (fun _ _ _ _ => True.intro)
        (fun _ => True.intro) fun _ _ _ => True.intro)
    | deliverBatch logId =>
      exact .inr (deliverBatch_does (fun _ h => h.marketless) (fun _ => True.intro) True.intro
        (fun _ _ _ => True.intro) logId)
  | unsubscribe marketId => exact .inr (unsubscribe_does marketless_serves (fun _ _ => True.intro) marketId)
  | updateMarket marketId body =>
    exact .inr (updateMarket_does marketless_serves (fun _ _ => True.intro) (fun _ _ => True.intro) marketId body)
  | enqueueDueMarkets => exact .inr (enqueueDueMarkets_does reads fun _ _ => True.intro)
  | enqueueStuckDeliveries => exact .inr (enqueueStuckDeliveries_does reads does)
  | enqueueStuckBatches => exact .inr (enqueueStuckBatches_does reads does)
  | resolveBatchCandidate m b h outcome item =>
    exact .inr ((resolveBatchCandidate_does (does m) True.intro).bind sends)
  | forceCloseBatch m b => exact .inr ((forceCloseBatch_does (does m) b).bind sends)
  | openBatch m n => exact .inr (openBatch_does True.intro (fun _ _ _ => True.intro) m n)

theorem task_subscribes (task : Task) : (taskProgram lib cfg task).Obeys
    (Monitor.history (fun _ _ _ => True) (Subscribes cfg task)) (fun _ _ => True) (fun _ _ => True) [] := by
  rcases @task_marketless lib cfg task with ⟨body, rfl⟩ | each
  · exact subscribe_subscribes cfg body
  · exact each.obeys (fun said s h => h.subscribes cfg task said) []

end Programs

section Runs

variable {lib : PyLib} {admits : Admits} {d₀ : Data} {i : JobId} {w w' : NewsWorld} {tr : List NewsEvent}

theorem execution_subscribes {task : Task} {cfg : Settings} (run : Execution (newsSys lib admits) i (task, cfg) w tr w')
    {before after : List NewsEvent} {e : NewsEvent} (split : tr = before ++ e :: after) :
    Subscribes cfg task (before.map Event.said) e.stmt := by
  have starts : ∀ p d', (newsSys lib admits).start i (task, cfg) w.data = some (p, d') →
      p.Obeys (Monitor.history (fun _ _ _ => True) (Subscribes cfg task)) (fun _ _ => True) (fun _ _ => True) [] := by
    intro p d' hs
    obtain ⟨_, _, _, rfl, _⟩ := newsSys_start hs
    exact task_subscribes task
  exact run.recorded starts (fun _ _ _ _ => True.intro) split

/-- No session stages a market. -/
theorem staged_marketless {task : Task} {cfg : Settings} (run : Execution (newsSys lib admits) i (task, cfg) w tr w')
    {p : Program Unit} {l : List Write} (live : w'.proc i = some (p, l)) : l.filterMap Write.market = [] := by
  refine List.filterMap_eq_nil_iff.mpr (staged_holds (K := fun _ x => x.market = none) (fun _ _ h => h) run ?_ live)
  intro e he x stages
  obtain ⟨before, after, rfl⟩ := List.append_of_mem he
  rcases stages with writes | ⟨row, _, rfl, _⟩
  · have unstaged := (execution_subscribes run rfl).unstaged
    revert writes unstaged
    generalize e.stmt = s
    intro writes unstaged
    cases writes with
    | assigned =>
      cases x with
      | insertMarket row => exact absurd rfl (unstaged row)
      | _ => rfl
    | _ => rfl
  · rfl

/-- The rows of the markets that nothing updates. -/
def Database.marketKeys (db : Database) : List (Uuid × String) := db.markets.map Market.key

/-- What a statement makes of the markets: a request adds its own, under a new name, or nothing changes. -/
theorem exec_markets {s : Stmt} {r : Answer s} {l l' : List Write} {d d' : Data}
    (hx : exec lib i s r l d = some (l', d')) (none : l.filterMap Write.market = []) :
    d'.db.marketKeys = d.db.marketKeys ∨ ∃ row, s = .insertMarket row ∧
      (∀ key ∈ d.db.marketKeys, key.2 ≠ row.externalMarketId) ∧
      d'.db.marketKeys = d.db.marketKeys ++ [row.key] ∧ d'.drawn = d.drawn := by
  have view : (d.db.after l).marketKeys = d.db.marketKeys := by
    have kept := markets_accrue.after d.db l
    rw [none, List.append_nil] at kept
    exact kept
  cases s with
  | insertMarket row =>
    simp only [exec] at hx
    split at hx
    next =>
      obtain ⟨_, _, rfl⟩ := answered_eq hx
      exact .inl rfl
    next unknown =>
      split at hx
      next =>
        obtain ⟨_, rfl⟩ := Prod.mk.inj (Option.some.inj hx)
        refine .inr ⟨row, rfl, fun key mem same => unknown ?_, ?_, rfl⟩
        · rw [← view] at mem
          obtain ⟨market, hm, rfl⟩ := List.mem_map.mp mem
          exact List.any_eq_true.mpr ⟨market, hm, decide_eq_true same⟩
        · rw [← view]
          exact List.map_append
      next => simp at hx
  | _ =>
    refine .inl ?_
    cases exec_outcome hx with
    | committed => exact view
    | marketInserted _ same => cases same
    | _ => rfl

theorem exec_drawn {s : Stmt} {r : Answer s} {l l' : List Write} {d d' : Data}
    (hx : exec lib i s r l d = some (l', d')) :
    d'.drawn = d.drawn ∨ ∃ u, d.isFresh u = true ∧ d'.drawn = (u, i) :: d.drawn := by
  cases exec_outcome hx with
  | drew u fresh | drewStaged u _ fresh | drewBatch u _ _ fresh => exact .inr ⟨u, fresh, rfl⟩
  | _ => exact .inl rfl

/-- What a live execution asks next. -/
theorem next_subscribes {task : Task} {cfg : Settings} (run : Execution (newsSys lib admits) i (task, cfg) w tr w')
    {s : Stmt} {next : Answer s → Program Unit} {l : List Write} (live : w'.proc i = some (.stmt s next, l)) :
    Subscribes cfg task (tr.map Event.said) s := by
  have starts : ∀ p d', (newsSys lib admits).start i (task, cfg) w.data = some (p, d') →
      p.Obeys (Monitor.history (fun _ _ _ => True) (Subscribes cfg task)) (fun _ _ => True) (fun _ _ => True) [] := by
    intro p d' hs
    obtain ⟨_, _, _, rfl, _⟩ := newsSys_start hs
    exact task_subscribes task
  have asked := (run.obeys starts (Monitor.given_history fun _ _ _ _ => True.intro) live).1
  rwa [Monitor.observe_history, List.nil_append] at asked

/-- Right before a market is inserted its id is drawn. -/
theorem drawn_first {task : Task} {cfg : Settings} (run : Execution (newsSys lib admits) i (task, cfg) w tr w')
    {s : Stmt} {next : Answer s → Program Unit} {l l' : List Write} {r : Answer s} {d' : Data}
    (hp : w'.proc i = some (.stmt s next, l)) (hx : exec lib i s r l w'.data = some (l', d')) {row : Market}
    {next₁ : Answer (.insertMarket row) → Program Unit} (ends : next r = .stmt (.insertMarket row) next₁) :
    (⟨s, r⟩ : NewsSaid) = ⟨.uuid4, row.id⟩ := by
  have live : (w'.set i (some (next r, l')) d').proc i = some (.stmt (.insertMarket row) next₁, l') := by
    rw [World.set_self, ends]
  obtain ⟨_, _, asks⟩ := (next_subscribes (run.exec r hp hx) live).inserted row rfl
  have last := asks.drawn
  rw [List.map_append, List.map_singleton, List.getLast?_append_of_ne_nil _ (List.cons_ne_nil _ _)] at last
  exact Option.some.inj last

/-- The markets of a run: their ids are drawn, by one session each, before they are theirs. -/
structure Registered (w : NewsWorld) : Prop where
  drawn : (w.data.drawn.map (·.1)).Nodup
  ids : (w.data.db.marketKeys.map (·.1)).Nodup
  names : (w.data.db.marketKeys.map (·.2)).Nodup
  idsDrawn : ∀ key ∈ w.data.db.marketKeys, key.1 ∈ w.data.drawn.map (·.1)
  pending : ∀ i row next l, w.proc i = some (.stmt (.insertMarket row) next, l) →
    (row.id, i) ∈ w.data.drawn ∧ ∀ key ∈ w.data.db.marketKeys, key.1 ≠ row.id

theorem Registered.executed (h : Registered w) (reach : Reachable (newsSys lib admits) d₀ w) {s : Stmt}
    {next : Answer s → Program Unit} {l l' : List Write} {r : Answer s} {d' : Data}
    (hp : w.proc i = some (.stmt s next, l)) (hx : exec lib i s r l w.data = some (l', d')) :
    Registered (w.set i (some (next r, l')) d') := by
  obtain ⟨v, ⟨task, cfg⟩, tr, first, run⟩ := Execution.exists rfl reach hp
  have rows := exec_markets hx (staged_marketless run hp)
  have draws := exec_drawn hx
  have kept : ∀ e ∈ w.data.drawn, e ∈ d'.drawn := by
    intro e he
    rcases draws with same | ⟨u, _, more⟩
    · exact same ▸ he
    · exact more ▸ List.mem_cons_of_mem _ he
  have drawn : (d'.drawn.map (·.1)).Nodup := by
    rcases draws with same | ⟨u, fresh, more⟩
    · exact same ▸ h.drawn
    · rw [more, List.map_cons]
      refine List.nodup_cons.mpr ⟨fun mem => ?_, h.drawn⟩
      obtain ⟨e, he, same⟩ := List.mem_map.mp mem
      simpa [same] using List.all_eq_true.mp fresh e he
  -- the id of a row that is inserted next is not that of a market
  have pending : ∀ j row next₁ l₁,
      (w.set i (some (next r, l')) d').proc j = some (.stmt (.insertMarket row) next₁, l₁) →
      (row.id, j) ∈ d'.drawn ∧ ∀ key ∈ w.data.db.marketKeys, key.1 ≠ row.id := by
    intro j row next₁ l₁ live
    by_cases same : j = i
    · subst j
      rw [World.set_self] at live
      obtain ⟨rfl, answer⟩ := Sigma.mk.inj (drawn_first run hp hx (Prod.mk.inj (Option.some.inj live)).1)
      obtain rfl := eq_of_heq answer
      have hx : exec lib i .uuid4 row.id l w.data = some (l', d') := hx
      simp only [exec] at hx
      split at hx
      next fresh =>
        obtain ⟨_, rfl⟩ := Prod.mk.inj (Option.some.inj hx)
        refine ⟨List.mem_cons_self, fun key mem same => ?_⟩
        obtain ⟨e, he, drew⟩ := List.mem_map.mp (h.idsDrawn key mem)
        have new := List.all_eq_true.mp fresh e he
        simp [drew, same] at new
      next => simp at hx
    · rw [World.set_other w same] at live
      obtain ⟨own, none⟩ := h.pending j row next₁ l₁ live
      exact ⟨kept _ own, none⟩
  rcases rows with same | ⟨row, rfl, new, added, undrawn⟩
  · refine ⟨drawn, ?_, ?_, ?_, ?_⟩ <;> simp only [World.set_data, same]
    · exact h.ids
    · exact h.names
    · exact fun key mem => List.map_subset _ kept (h.idsDrawn key mem)
    · exact pending
  · obtain ⟨own, none⟩ := h.pending i row next l hp
    refine ⟨drawn, ?_, ?_, ?_, ?_⟩ <;> simp only [World.set_data, added]
    · rw [List.map_append, List.map_singleton]
      refine List.nodup_append.mpr ⟨h.ids, List.nodup_singleton _, fun a ha b hb => ?_⟩
      obtain ⟨key, mem, rfl⟩ := List.mem_map.mp ha
      exact List.mem_singleton.mp hb ▸ none key mem
    · rw [List.map_append, List.map_singleton]
      refine List.nodup_append.mpr ⟨h.names, List.nodup_singleton _, fun a ha b hb => ?_⟩
      obtain ⟨key, mem, rfl⟩ := List.mem_map.mp ha
      exact List.mem_singleton.mp hb ▸ new key mem
    · intro key mem
      rcases List.mem_append.mp mem with old | last
      · exact List.map_subset _ kept (h.idsDrawn key old)
      · obtain rfl := List.mem_singleton.mp last
        exact List.mem_map_of_mem (kept _ own)
    · intro j row' next₁ l₁ live
      obtain ⟨own', none'⟩ := pending j row' next₁ l₁ live
      refine ⟨own', fun key mem => ?_⟩
      rcases List.mem_append.mp mem with old | last
      · exact none' key old
      · obtain rfl := List.mem_singleton.mp last
        intro same
        have one : (row.id, i) = (row'.id, j) := List.inj_on_of_nodup_map drawn (kept _ own) own' same
        obtain rfl := (Prod.mk.inj one).2
        rw [World.set_self] at live
        cases Sigma.mk.inj (drawn_first run hp hx (Prod.mk.inj (Option.some.inj live)).1) with
        | intro stmt _ => cases stmt

theorem Registered.step (h : Registered w) (reach : Reachable (newsSys lib admits) d₀ w)
    (step : Step (newsSys lib admits) w w') : Registered w' := by
  cases step with
  | exec r hp hx => exact h.executed reach hp hx
  | @start i job p d' hp hs =>
    obtain ⟨task, cfg⟩ := job
    obtain ⟨_, _, _, rfl, rfl⟩ := newsSys_start hs
    refine ⟨h.drawn, h.ids, h.names, h.idsDrawn, fun j row next l live => ?_⟩
    by_cases same : j = i
    · subst j
      rw [World.set_self] at live
      have asked := @task_subscribes lib cfg task
      rw [(Prod.mk.inj (Option.some.inj live)).1] at asked
      obtain ⟨_, _, asks⟩ := asked.1.inserted row rfl
      exact absurd asks.drawn (by simp)
    · rw [World.set_other w same] at live
      exact h.pending j row next l live
  | @stop i hp =>
    refine ⟨h.drawn, h.ids, h.names, h.idsDrawn, fun j row next l live => ?_⟩
    by_cases same : j = i
    · subst j
      rw [World.set_self] at live
      cases live
    · rw [World.set_other w same] at live
      exact h.pending j row next l live
  | @env t d' he =>
    obtain ⟨_, rfl⟩ := newsSys_env he
    exact ⟨h.drawn, h.ids, h.names, h.idsDrawn, h.pending⟩

theorem registered (h₀ : d₀.Initial) (names : (d₀.db.markets.map (·.externalMarketId)).Nodup)
    (reach : Reachable (newsSys lib admits) d₀ w) : Registered w := by
  induction reach with
  | refl =>
    refine ⟨h₀.drawn, ?_, ?_, ?_, fun _ _ _ _ live => by cases live⟩
    · rw [Database.marketKeys, List.map_map]
      exact h₀.markets
    · rw [Database.marketKeys, List.map_map]
      exact names
    · intro key mem
      obtain ⟨market, hm, rfl⟩ := List.mem_map.mp mem
      exact h₀.marketDrawn market hm
  | tail before step ih => exact ih.step before step

/-- However the requests interleave, no two markets share an id or an external id, no market is lost or
renamed, and each that was not there before was inserted for a request to subscribe, as it asked. -/
theorem subscriptions (lib : PyLib) (admits : Admits) (h₀ : d₀.Initial)
    (names : (d₀.db.markets.map (·.externalMarketId)).Nodup) (reach : Reachable (newsSys lib admits) d₀ w) :
    (w.data.db.markets.map (·.id)).Nodup ∧ (w.data.db.markets.map (·.externalMarketId)).Nodup ∧
    (∀ w', Steps (newsSys lib admits) w w' → ∀ market ∈ w.data.db.markets, ∃ market' ∈ w'.data.db.markets,
      market'.id = market.id ∧ market'.externalMarketId = market.externalMarketId) ∧
    ∀ market ∈ w.data.db.markets, (∃ old ∈ d₀.db.markets, old.id = market.id) ∨
      ∃ i cfg body v tr e v' row, Reachable (newsSys lib admits) d₀ v ∧
        Execution (newsSys lib admits) i (.subscribe body, cfg) v (tr ++ [e]) v' ∧ Steps (newsSys lib admits) v' w ∧
        e.stmt = .insertMarket row ∧ row.id = market.id ∧ row.externalMarketId = market.externalMarketId ∧
        Subscribed cfg body (tr.map Event.said) row := by
  have kept := registered h₀ names reach
  have ids := kept.ids
  have externals := kept.names
  rw [Database.marketKeys, List.map_map] at ids externals
  refine ⟨ids, externals, fun w' run market mem => ?_, fun market mem => ?_⟩
  · obtain ⟨market', mem', same⟩ := List.mem_map.mp (markets_accrue.steps run (List.mem_map_of_mem mem))
    obtain ⟨id, name⟩ := Prod.mk.inj same
    exact ⟨market', mem', id, name⟩
  · by_cases old : market.key ∈ d₀.db.marketKeys
    · obtain ⟨row, hr, same⟩ := List.mem_map.mp old
      exact .inl ⟨row, hr, (Prod.mk.inj same).1⟩
    · have start : ∀ {i : JobId} {j d p d'}, (newsSys lib admits).start i j d = some (p, d') →
          market.key ∈ d'.db.marketKeys → market.key ∈ d.db.marketKeys := by
        intro i j d p d' hs has
        obtain ⟨_, _, _, _, rfl⟩ := newsSys_start hs
        exact has
      have env : ∀ {t d d'}, (newsSys lib admits).env t d = some d' →
          market.key ∈ d'.db.marketKeys → market.key ∈ d.db.marketKeys := by
        intro t d d' he has
        obtain ⟨_, rfl⟩ := newsSys_env he
        exact has
      obtain ⟨i, ⟨task, cfg⟩, v, tr, e, w₁, w₂, first, brings, rest⟩ := Steps.origin
        (P := fun d : Data => market.key ∈ d.db.marketKeys) (fun _ => rfl) reach start (fun has => has) env old
        (List.mem_map_of_mem mem)
      obtain ⟨next, l', hp, hx, _⟩ := brings.executed
      have hx : exec lib i e.stmt e.answer e.before e.data = some (l', w₂.data) := hx
      rcases exec_markets hx (staged_marketless brings.before hp) with same | ⟨row, stmt, _, added, _⟩
      · exact absurd (same ▸ brings.holds) brings.unseen
      · have last : market.key ∈ e.data.db.marketKeys ++ [row.key] := added ▸ brings.holds
        have own := List.mem_singleton.mp ((List.mem_append.mp last).resolve_left brings.unseen)
        obtain ⟨id, name⟩ := Prod.mk.inj own
        obtain ⟨body, rfl, asks⟩ := (execution_subscribes brings.after rfl).inserted row stmt
        exact .inr ⟨i, cfg, body, v, tr, e, w₂, row, first, brings.after, rest, stmt, id.symm, name.symm, asks⟩

end Runs

/-- Two requests for one new market that both find none of its name. -/
def twoSubscriptions : List NewsMove :=
  let body : MarketSubscribeRequest := ⟨"n", "d", none, "u", "s", some 0⟩
  .start (.call 1) (.subscribe body, sampleSettings) :: .start (.call 2) (.subscribe body, sampleSettings) ::
    execs sampleLib (sampleOracle "t") (.call 1) 4 ++ execs sampleLib (sampleOracle "t") (.call 2) 4 ++
    execs sampleLib (sampleOracle "t") (.call 1) 3 ++
    [.exec (.call 2) fun _ _ s => match s with | .insertMarket _ => some false | _ => none]

theorem subscriptions_sample : ∃ w : NewsWorld, w.data.db.markets.length = 2 ∧
    (w.data.db.markets.map (·.id)).Nodup ∧ (w.data.db.markets.map (·.externalMarketId)).Nodup := by
  have run : ((newsSys sampleLib anyTask).run sampleWorld twoSubscriptions).map
      (fun w => w.data.db.markets.length == 2) = some true := by
    decide +kernel
  obtain ⟨w, reach, hp⟩ := Sys.run_reaches run
  obtain ⟨ids, names, _⟩ := subscriptions sampleLib anyTask sampleData_initial (by decide) reach
  exact ⟨w, by simpa using hp, ids, names⟩

end NewsNotifier
