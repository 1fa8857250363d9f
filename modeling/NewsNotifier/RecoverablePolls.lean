import NewsNotifier.FuturePolls
import NewsNotifier.RecoverableBatches

namespace NewsNotifier

open Interleaving Prog

section Poll

variable {lib : PyLib} {i : JobId} {cfg : Settings} {h : List NewsSaid} {l : List Write} {d : Data} {m : Uuid}
  {market row : Market}

theorem market_set (db : Database) (change : MarketChange) :
    ((Write.setMarket m change).apply db).market m = (db.market m).map change.apply := by
  have same : ∀ row : Market, (change.apply row).id = row.id := by
    intro row
    cases change <;> rfl
  simp only [Write.apply, Database.market]
  rw [KeyedRows.find_update same]
  cases found : db.markets.find? (·.id = m) with
  | none => rfl
  | some row =>
    have own : row.id = m := by simpa using List.find?_some found
    simp [own]

/-- An assignment leaves the row with the change, be it written or there already. -/
theorem assignMarket_can (change : MarketChange) (known : (d.db.after l).market market.id = some row)
    (agree : change.apply market = market → change.apply row = row) :
    (assignMarket market change).Can (newsSys lib plainTask) i
      (fun h' _ l' d' => h ⊆ h' ∧ d' = d ∧ (d.db.after l').market market.id = some (change.apply row)) h l d := by
  unfold assignMarket
  split
  next same => exact ⟨List.Subset.refl _, rfl, known.trans (congrArg some (agree same).symm)⟩
  next =>
    refine ⟨(), l ++ [.setMarket market.id change], d, rfl, List.subset_append_left _ _, rfl, ?_⟩
    rw [Database.after_append, Database.after_cons, Database.after_nil, market_set, known]
    rfl

/-- The sources have been searched. -/
def Searched (h : List NewsSaid) : Prop := ∃ queries perSource results, ⟨.searchSources queries perSource, results⟩ ∈ h

theorem Searched.mono {h' : List NewsSaid} (searched : Searched h) (sub : h ⊆ h') : Searched h' := by
  obtain ⟨queries, perSource, results, said⟩ := searched
  exact ⟨queries, perSource, results, sub said⟩

/-- A search that finds nothing. -/
theorem selectCandidates_can {Q : List NewsSaid → List Candidate → List Write → Data → Prop}
    (found : ∀ h', Searched h' → Q h' [] l d) :
    (selectCandidates lib cfg market).Can (newsSys lib plainTask) i Q h l d := by
  refine ⟨some (.obj [("queries", .arr [])]), l, d, rfl, ?_⟩
  refine ⟨[], l, d, rfl, ?_⟩
  refine ⟨((d.db.after l).itemsOf market.id).map fun o => o.canonicalUrlHash, l, d,
    by simp [newsSys, exec, answered, List.isPerm_iff], ?_⟩
  refine ⟨d.clock, l, d, by simp [newsSys, exec, answered], ?_⟩
  have recent : filterByRecency lib [] cfg.candidateMaxAgeDays d.clock = .ok [] := by
    unfold filterByRecency
    split <;> rfl
  have unstale : filterOlderThanWatermark lib [] market.maxDeliveredPublishedAt = .ok [] := by
    cases market.maxDeliveredPublishedAt <;> rfl
  simp only [Prog.ret_bind, List.filter_nil, recent, ofExcept, Prog.bind_eq, Prog.pure_eq, unstale,
    selectRelevantCandidates, or_true, if_true]
  exact found _ ⟨_, _, _, List.mem_append_left _ (List.mem_append_left _ (List.mem_append_right _
    (List.mem_singleton_self _)))⟩

/-- With no jitter drawn, and a positive interval of its own, a market is polled again later. -/
theorem undrawn_poll (cfg : Settings) (positive : 0 < market.pollIntervalMinutes) (now : Time) :
    now < nextPollAt market.resolutionDate now market.pollIntervalMinutes cfg.pollJitterFraction 0 := by
  rw [nextPollAt_drawn fun _ => rfl, drawnStep_zero, pollStep_eq]
  have minutes := (@cadenceMinutes_pos market.resolutionDate now _).mpr (.inr positive)
  exact Int.lt_add_of_pos_right _ (Int.mul_pos minutes (by decide))

/-- One poll, alone, of an active market: the sources are searched, its row has the next time and that poll is queued. -/
theorem processMarket_can (lib : PyLib) (cfg : Settings) (known : d.db.market m = some market)
    (active : market.status = .active)
    (positive : 0 < market.pollIntervalMinutes) (running : d.redis.running.map (·.id) = [.processMarket m d.clock]) :
    (processMarket lib cfg m).Can (newsSys lib plainTask) (.processMarket m d.clock) (fun h' _ l' d' => l' = [] ∧
      Searched h' ∧ ∃ row, d'.db.market m = some row ∧ row.lastPolledAt = some d.clock ∧ d.clock < row.nextPollAt ∧
        ∃ q ∈ d'.redis.queue, q.id = .processMarket m row.nextPollAt) h [] d := by
  have own : market.id = m := (KeyedRows.key_of_find known).2
  subst own
  have known : (d.db.after []).market market.id = some market := known
  have read : exec lib (.processMarket market.id d.clock) (.getMarket market.id) (some market) [] d = some ([], d) :=
    if_pos (decide_eq_true known.symm)
  refine ⟨some market, [], d, read, ?_⟩
  simp only [Prog.ret_bind, active, ne_eq, not_true_eq_false, if_false]
  refine Can.bind (selectCandidates_can fun h₁ searched => ?_)
  refine ⟨d.clock, [], d, by simp [newsSys, exec, answered], ?_⟩
  refine ⟨(0 : Rat), [], d, by simp [newsSys, exec, answered], ?_⟩
  simp only [Prog.ret_bind, Prog.bind_eq]
  have searched : Searched (h₁ ++ [⟨.utcnow, d.clock⟩] ++ [⟨.uniform cfg.pollJitterFraction, (0 : Rat)⟩]) :=
    searched.mono (List.Subset.trans (List.subset_append_left _ _) (List.subset_append_left _ _))
  refine Can.bind (Can.mono (assignMarket_can _ known fun same => same) ?_)
  rintro h₂ _ l' d' ⟨sub, same, polled⟩
  have searched := searched.mono sub
  rw [same]
  have ahead := undrawn_poll cfg positive d.clock
  generalize nextPollAt market.resolutionDate d.clock market.pollIntervalMinutes cfg.pollJitterFraction 0 = next at ahead ⊢
  refine Can.bind (Can.mono (assignMarket_can _ polled fun same => ?_) ?_)
  · have kept : next = market.nextPollAt := congrArg Market.nextPollAt same
    simp only [MarketChange.apply, kept]
  rintro h₃ _ l'' d'' ⟨sub, same, set⟩
  have searched := searched.mono sub
  rw [same, if_pos True.intro]
  refine ⟨(), [], _, rfl, ?_⟩
  have later : Queueing (.processMarket market.id d.clock)
      ⟨.processMarket market.id next, .processMarket market.id, some next⟩
      (d.db.after l'') d.clock [⟨.processMarket market.id next, .processMarket market.id, some next⟩]
      (h₃ ++ [⟨.commit, ()⟩]) [] ({ d with db := d.db.after l'' }.release (.processMarket market.id d.clock)) :=
    ⟨rfl, rfl, rfl, running, .inr List.mem_cons_self⟩
  obtain ⟨accepted, d₃, hx, queueing⟩ := later.enqueue lib
  have row := congrArg (Database.market · market.id) queueing.rows
  refine ⟨accepted, [], d₃, hx, rfl, ?_, _, row.trans set, rfl, ahead, (queueing.queued ?_).2⟩
  · exact searched.mono (List.Subset.trans (List.subset_append_left _ _) (List.subset_append_left _ _))
  · intro same
    exact ahead.ne' (JobId.processMarket.inj same).2

end Poll

section Recovery

variable {d₀ : Data} {w : NewsWorld}

/-- No poll of an active market is lost: from any state of any run, after a restart, time and one sweep alone a poll of
it is queued, and that poll, run alone, searches and has the next one queued, at a later time. -/
theorem market_recovers (lib : PyLib) (h₀ : d₀.Initial) (reach : Reachable (newsSys lib plainTask) d₀ w) {m : Uuid}
    {market : Market} (known : w.data.db.market m = some market) (active : market.status = .active)
    (positive : 0 < market.pollIntervalMinutes) (cfg : Settings) :
    ∃ w₁ tr w₂ tr' w₃ now, Restarts (newsSys lib plainTask) w w₁ ∧ (∀ i, w₁.proc i = none) ∧
      Completes (newsSys lib plainTask) (.call 0) (.enqueueDueMarkets, cfg) w₁ tr w₂ ∧
      (∃ r, ⟨.enqueueJob (.processMarket m now) (.processMarket m) (some now), r⟩ ∈ tr.map Event.said) ∧
      (∃ q ∈ w₂.data.redis.queue, q.id = .processMarket m now) ∧
      Completes (newsSys lib plainTask) (.processMarket m now) (.job (.processMarket m), cfg) w₂ tr' w₃ ∧
      Searched (tr'.map Event.said) ∧ ∃ row, w₃.data.db.market m = some row ∧ row.lastPolledAt = some now ∧
        now < row.nextPollAt ∧ ∃ q ∈ w₃.data.redis.queue, q.id = .processMarket m row.nextPollAt := by
  obtain ⟨w₁, rests, idle, same, time, _, nobody⟩ := comes_to_rest h₀ reach (market.nextPollAt + overdueThreshold)
  let d := w₁.data.begin (.call 0) .enqueueDueMarkets cfg
  let job (id : Uuid) : Queued := ⟨.processMarket id d.clock, .processMarket id, some d.clock⟩
  obtain ⟨mem, own⟩ : market ∈ w.data.db.markets ∧ market.id = m := KeyedRows.key_of_find known
  have sweep : enqueueDueMarkets.Can (newsSys lib plainTask) (.call 0)
      (fun h _ => Queueing (.call 0) (job m) d.db d.clock [] h) [] [] d := by
    refine ⟨d.clock, [], d, by simp [newsSys, exec, answered], ?_⟩
    refine ⟨_, [], d, if_pos (List.isPerm_iff.mpr (.refl _)), ?_⟩
    refine ⟨d.clock, [], d, by simp [newsSys, exec, answered], ?_⟩
    refine Can.forEach (K := fun rest h => Queueing (.call 0) (job m) d.db d.clock (rest.map job) h)
      (fun id rest h l d' queueing => ?_) _ ?_
    · obtain ⟨r, d'', hx, later⟩ := queueing.enqueue lib
      exact ⟨r, l, d'', hx, later⟩
    · refine ⟨rfl, rfl, rfl, by simp [d, Data.begin, nobody], .inr (List.mem_map_of_mem (List.mem_map.mpr
        ⟨market, List.mem_filter.mpr ⟨(congrArg Database.markets same) ▸ mem, ?_⟩, own⟩))⟩
      have old : market.nextPollAt ≤ w₁.data.clock - overdueThreshold := le_sub_iff_add_le.mpr time
      simp [active, d, Data.begin, old]
  have starts : (newsSys lib plainTask).start (.call 0) (.enqueueDueMarkets, cfg) w₁.data =
      some (enqueueDueMarkets, d) := rfl
  obtain ⟨w₂, tr, l, d', swept, idle₂, queueing, last⟩ := Sys.does idle starts sweep
  obtain ⟨said, q, hq, id⟩ := queueing.queued (by simp [job])
  have clock₂ : w₂.data.clock = d.clock := last ▸ queueing.clock
  have known₂ : w₂.data.db.market m = some market := by
    have rows : w₂.data.db = w.data.db := last ▸ queueing.rows.trans same
    exact rows ▸ known
  have quiet : w₂.data.redis.running = [] :=
    ((attended h₀ ((reach.trans rests.steps).trans swept.steps)).rest idle₂).2
  obtain ⟨w₃, tr', l₃, d₃, polled, _, ⟨-, searched, row, known₃, at_, ahead, next⟩, last₃⟩ := Sys.does idle₂
    (j := (.job (.processMarket m), cfg)) (i := .processMarket m w₂.data.clock) rfl
    (processMarket_can lib cfg (d := w₂.data.begin (.processMarket m w₂.data.clock) (.job (.processMarket m)) cfg)
      known₂ active positive (by simp [Data.begin, quiet]))
  have clock₃ : (w₂.data.begin (.processMarket m w₂.data.clock) (.job (.processMarket m)) cfg).clock = d.clock := clock₂
  rw [clock₃] at at_ ahead
  rw [clock₂] at polled
  exact ⟨w₁, tr, w₂, tr', w₃, d.clock, rests, idle, swept, said, ⟨q, last ▸ hq, id⟩, polled, searched, row,
    last₃ ▸ known₃, at_, ahead, last₃ ▸ next⟩

theorem market_recovers_sample : ∃ (w w₁ w₂ w₃ : NewsWorld) (tr tr' : List NewsEvent) (now : Time) (row : Market),
    Restarts (newsSys sampleLib plainTask) w w₁ ∧
    Completes (newsSys sampleLib plainTask) (.call 0) (.enqueueDueMarkets, sampleSettings) w₁ tr w₂ ∧
    Completes (newsSys sampleLib plainTask) (.processMarket 1 now) (.job (.processMarket 1), sampleSettings) w₂ tr' w₃ ∧
    w₃.data.db.market 1 = some row ∧ row.lastPolledAt = some now ∧ now < row.nextPollAt := by
  obtain ⟨w₁, tr, w₂, tr', w₃, now, rests, _, swept, _, _, polled, _, row, known, at_, ahead, _⟩ :=
    market_recovers sampleLib sampleData_initial .refl
      (show sampleData.db.market 1 = some sampleMarket from rfl) rfl (by decide) sampleSettings
  exact ⟨_, w₁, w₂, w₃, tr, tr', now, row, rests, swept, polled, known, at_, ahead⟩

end Recovery

end NewsNotifier
