import NewsNotifier.WatermarkTurns

namespace NewsNotifier

open Interleaving KeyedRows

/-- The delivery stands between the read of its market and the end of its last commit. -/
def midway : Option (Program Unit × List Write) → Bool
  | some (.stmt (.getLog _) _, _) | some (.stmt (.getMarket _) _, _) => false
  | some (.stmt _ _, _) => true
  | _ => false

/-- The logs that a commit of `l` turns into successes. -/
def Database.succeeding (db : Database) (l : List Write) : List DeliveryLog :=
  db.logs.filter fun log => log.status ≠ .success && ((db.after l).logRow log.id).any (·.status = .success)

/-- A delivery commits its success only while no other delivery of its market is midway. -/
def inTurn (w : NewsWorld) : Allows := fun _ s _ l d =>
  match s with
  | .commit => (d.db.succeeding l).all fun log => d.db.logs.all fun other =>
      other.id = log.id || other.marketId ≠ log.marketId || !midway (w.proc (.deliverBatch other.id))
  | _ => true

section Marked

variable {lib : PyLib} {d₀ : Data} {i : JobId} {logId : Uuid} {job : Task × Settings} {w w' : NewsWorld}
  {tr : List NewsEvent}

theorem writesNewest_of_marked {m : Marking} {l : List Write} {d : Data} (h : Marked logId m l d) :
    writesNewest l d = true := by
  refine List.all_eq_true.mpr fun market mem => ?_
  rw [h.staged]
  cases read : m.read with
  | none => rfl
  | some found =>
    rw [Option.any_some]
    by_cases same : found.id = market.id
    · rw [if_pos (decide_eq_true same)]
      cases mark : m.mark with
      | none => rfl
      | some t =>
        obtain ⟨watermark, _, _, ahead⟩ := h.market found read
        have ahead := ahead t mark
        rw [← same, watermark]
        refine reaches_iff.mpr ?_
        unfold advancesWatermark at ahead
        unfold Market.watermark
        cases old : found.maxDeliveredPublishedAt with
        | none => exact bot_le
        | some w =>
          rw [old] at ahead
          exact WithBot.coe_le_coe.mpr (le_of_lt (of_decide_eq_true ahead))
    · rw [if_neg (by simpa using same)]

theorem stagedWatermark_none {l : List Write} (h : ∀ x ∈ l, ∀ m, stagedWatermark [x] m = none) (m : Uuid) :
    stagedWatermark l m = none := by
  induction l with
  | nil => rfl
  | cons x l ih =>
    rw [stagedWatermark_cons, h x List.mem_cons_self m, Option.or_none]
    exact ih fun y hy => h y (List.mem_cons_of_mem _ hy)

/-- Who is no delivery stages no watermark. -/
theorem writesNewest_aside {admits : Admits} (run : Execution (newsSys lib admits) i job w tr w')
    (other : job.1.isDelivery = false) {p : Program Unit} {l : List Write} (live : w'.proc i = some (p, l)) (d : Data) :
    writesNewest l d = true := by
  have asides : ∀ e ∈ tr, e.stmt.aside := by
    intro e he
    refine run.along (R := fun _ _ => True) (P := Stmt.aside) (fun p d hs => ?_) (fun _ _ => True.intro) he
    obtain ⟨_, _, _, rfl, _⟩ := @newsSys_start lib admits _ _ _ _ _ _ hs
    exact (taskProgram_aside other).along
  have staged := staged_holds (K := fun _ x => ∀ m, stagedWatermark [x] m = none) (fun _ _ h => h) run
    (fun e he x stages m => ?_) live
  · refine List.all_eq_true.mpr fun market _ => ?_
    rw [stagedWatermark_none staged]
  · have aside := asides e he
    rcases stages with writes | ⟨row, watermark, rfl, _⟩
    · generalize e.stmt = s at aside writes
      cases writes with
      | assigned x =>
        cases x with
        | setMarket id c =>
          cases c <;> first | rfl | simp [Stmt.aside, MarketChange.isWatermark] at aside
        | _ => rfl
      | _ => rfl
    · rfl

end Marked

section Turns

variable {lib : PyLib} {d₀ : Data} {logId : Uuid} {row : DeliveryLog} {w w' : NewsWorld}

/-- Every live delivery is as marked. -/
def DeliveriesMarked (w : NewsWorld) : Prop :=
  ∀ logId s next l, w.proc (.deliverBatch logId) = some (.stmt s next, l) →
    ∃ m, Marks logId (.stmt s next) m ∧ Marked logId m l w.data

/-- While a delivery is midway, the others do not move the watermark of its market. -/
theorem turn_kept (h₀ : d₀.Initial) (reach : Reachable (newsSys lib plainTask) d₀ w) (old : DeliveriesMarked w)
    (step : StepIf (newsSys lib plainTask) inTurn w w')
    (same : w'.proc (.deliverBatch logId) = w.proc (.deliverBatch logId)) (found : w.data.db.logRow logId = some row)
    (mid : midway (w.proc (.deliverBatch logId)) = true) :
    w'.data.db.watermarkOf row.marketId = w.data.db.watermarkOf row.marketId := by
  by_contra moved
  have moves : w'.data.deliveries.rows.watermark row.marketId ≠ w.data.deliveries.rows.watermark row.marketId := by
    intro same
    exact moved (((watermark_deliveryRows w'.data.db _).symm.trans same).trans (watermark_deliveryRows w.data.db _))
  have sound := (plain_governs lib).sound h₀.deliveryInv reach
  obtain ⟨sound', _⟩ := (plain_governs lib).step sound step.of_restrict
  cases step.apart same with
  | @exec k s next l l' d' r ne hp hx =>
    obtain ⟨allowed, hx⟩ := Sys.exec_of_restrict hx
    obtain ⟨_, act⟩ := (sound.proc hp w.data .refl sound.data r l' d' hx).1
    obtain ⟨log, mem, mover, market, open_, ⟨log', mem', key, done⟩, _⟩ :=
      act.watermark_moved sound.data.1.keyed.logs moves
    obtain rfl : k = .deliverBatch log.id := Option.some.inj mover
    have other : logId ≠ log.id := fun e => ne (congrArg JobId.deliverBatch e.symm)
    -- only a commit moves it, and a delivery inserts no market
    obtain ⟨rfl, logs⟩ : s = .commit ∧ d'.db.logs = (w.data.db.after l).logs := by
      cases exec_outcome hx with
      | committed e => exact ⟨e, rfl⟩
      | marketInserted row e =>
        subst e
        obtain ⟨m, marks, _⟩ := old log.id _ next l hp
        exact False.elim marks.1
      | _ => exact absurd rfl moved
    have after : (w.data.db.after l).logRow log.id = some log' := by
      rw [← key, Database.logRow, ← logs]
      exact find_of_mem sound'.data.1.keyed.logs mem'
    have succeeds : log ∈ w.data.db.succeeding l := by
      refine List.mem_filter.mpr ⟨mem, ?_⟩
      simp [open_, after, done]
    obtain ⟨memRow, keyRow⟩ := key_of_find found
    simp only [inTurn, List.all_eq_true] at allowed
    have turn := allowed log succeeds row memRow
    rw [keyRow, mid] at turn
    simp [other, market] at turn
  | start _ _ hs =>
    obtain ⟨_, _, _, _, rfl⟩ := @newsSys_start lib plainTask _ _ _ _ _ _ hs
    exact moved rfl
  | stop => exact moved rfl
  | env he =>
    obtain ⟨_, rfl⟩ := @newsSys_env lib plainTask _ _ _ he
    exact moved rfl

/-- A step of the others leaves a delivery marked. -/
theorem marked_beside (h₀ : d₀.Initial) (reach : Reachable (newsSys lib plainTask) d₀ w) (all : DeliveriesMarked w)
    (step : StepIf (newsSys lib plainTask) inTurn w w')
    (same : w'.proc (.deliverBatch logId) = w.proc (.deliverBatch logId)) {s : Stmt} {next : Answer s → Program Unit}
    {l : List Write} (live : w.proc (.deliverBatch logId) = some (.stmt s next, l)) {m : Marking}
    (marks : Marks logId (.stmt s next) m) (old : Marked logId m l w.data) : Marked logId m l w'.data := by
  have log : ∀ log, m.log = some log → ∃ row, w'.data.db.logRow logId = some row ∧ row.marketId = log.marketId := by
    intro log read
    obtain ⟨row, found, market⟩ := old.log log read
    exact ⟨row, others_logRow h₀ reach step.of_restrict same found, market⟩
  refine ⟨old.quiet, old.staged, log, fun market read => ?_⟩
  obtain ⟨watermark, known, ⟨log, readLog, own⟩, ahead⟩ := old.market market read
  obtain ⟨row, found, ofLog⟩ := old.log log readLog
  -- the market is read once, so a delivery that has read it is midway
  have mid : midway (w.proc (.deliverBatch logId)) = true := by
    rw [live]
    cases s with
    | getLog id =>
      obtain ⟨_, rfl⟩ := marks.1
      exact nomatch (show none = some market from read)
    | getMarket id =>
      obtain ⟨_, unread, _⟩ := marks.1
      exact nomatch unread.symm.trans read
    | _ => rfl
  have kept := turn_kept h₀ reach all step same found mid
  obtain ⟨l', after⟩ := step_after step.of_restrict
  rw [ofLog, ← own] at kept
  refine ⟨kept.trans watermark, ?_, ⟨log, readLog, own⟩, ahead⟩
  rw [after]
  exact known_after l' known

theorem marked_start (d : Data) : Marked logId .start [] d :=
  ⟨fun _ => rfl, fun _ => rfl, fun log read => (nomatch (show none = some log from read)),
    fun market read => (nomatch (show none = some market from read))⟩

theorem marked_step (h₀ : d₀.Initial) (reach : Reachable (newsSys lib plainTask) d₀ w) (old : DeliveriesMarked w)
    (step : StepIf (newsSys lib plainTask) inTurn w w') : DeliveriesMarked w' := by
  intro logId s next l live
  by_cases same : w'.proc (.deliverBatch logId) = w.proc (.deliverBatch logId)
  · have live' := same.symm.trans live
    obtain ⟨m, marks, marked⟩ := old logId s next l live'
    exact ⟨m, marks, marked_beside h₀ reach old step same live' marks marked⟩
  · rcases step.of_restrict.own same with ⟨s₀, next₀, l₀, r, l', d', hp, hx, rfl⟩ | ⟨j, p, d', _, hs, rfl⟩ | rfl
    · obtain ⟨m, marks, marked⟩ := old logId s₀ next₀ l₀ hp
      obtain ⟨e, rfl⟩ := Prod.mk.inj (Option.some.inj ((World.set_self _ _ _ _).symm.trans live))
      have rest : Marks logId (next₀ r) (m.next s₀ r) := marks.2 r True.intro
      exact ⟨m.next s₀ r, e ▸ rest, marked.exec marks.1 hx⟩
    · obtain ⟨rfl, rfl⟩ := Prod.mk.inj (Option.some.inj ((World.set_self _ _ _ _).symm.trans live))
      exact ⟨.start, (delivery_started hs) ▸ deliverBatch_marks, marked_start _⟩
    · rw [World.set_self] at live
      exact nomatch live

theorem deliveries_marked (h₀ : d₀.Initial) (h : StepsIf (newsSys lib plainTask) inTurn ⟨d₀, fun _ => none⟩ w) :
    DeliveriesMarked w := by
  induction h with
  | refl => exact fun _ _ _ _ live => nomatch live
  | tail run step ih => exact marked_step h₀ (StepsIf.steps run) ih step

/-- A step of the runs in turn writes no watermark behind the committed one. -/
theorem turn_keepsNewest (h₀ : d₀.Initial) (h : StepsIf (newsSys lib plainTask) inTurn ⟨d₀, fun _ => none⟩ w)
    (step : StepIf (newsSys lib plainTask) inTurn w w') : Step ((newsSys lib plainTask).restrict keepsNewest) w w' := by
  cases step with
  | @exec i s next l l' d' r hp hx =>
    have keeps : writesNewest l w.data = true := by
      by_cases delivery : ∃ logId, i = .deliverBatch logId
      · obtain ⟨logId, rfl⟩ := delivery
        obtain ⟨m, _, marked⟩ := deliveries_marked h₀ h logId s next l hp
        exact writesNewest_of_marked marked
      · obtain ⟨w₁, job, tr, _, run⟩ := Execution.exists rfl (StepsIf.steps h) hp
        have other : job.1.isDelivery = false := by
          obtain ⟨p, d, hs⟩ := run.started
          obtain ⟨named, _⟩ := @newsSys_start lib plainTask _ _ _ _ _ _ hs
          by_contra delivers
          unfold Task.isDelivery at delivers
          split at delivers
          next logId same =>
            rw [same] at named
            cases i with
            | deliverBatch logId => exact delivery ⟨logId, rfl⟩
            | _ => exact Bool.noConfusion named
          next => exact delivers rfl
        exact writesNewest_aside run other hp w.data
    refine .exec r hp ?_
    show (if keepsNewest i s r l w.data then exec lib i s r l w.data else none) = some (l', d')
    rw [keepsNewest, keeps, Bool.or_true, if_pos rfl]
    exact (Sys.exec_of_restrict hx).2
  | start hp hs => exact .start hp hs
  | stop hp => exact .stop hp
  | env he => exact .env he

theorem turns_keepNewest (h₀ : d₀.Initial) (h : StepsIf (newsSys lib plainTask) inTurn ⟨d₀, fun _ => none⟩ w)
    (run : StepsIf (newsSys lib plainTask) inTurn w w') :
    Steps ((newsSys lib plainTask).restrict keepsNewest) w w' := by
  induction run with
  | refl => exact .refl
  | tail run step ih => exact ih.tail (turn_keepsNewest h₀ (h.trans run) step)

/-- In the runs where a delivery commits its success only while no other one of its market stands
between its read of the market and its last commit, the watermark never decreases and is the maximum
of the first one and of all delivered dates. -/
theorem watermark_kept (lib : PyLib) {d₀ : Data} (h₀ : d₀.Initial) {w : NewsWorld}
    (h : StepsIf (newsSys lib plainTask) inTurn ⟨d₀, fun _ => none⟩ w) (m : Uuid) :
    IsGreatest (w.data.db.deliveredDates (d₀.db.watermarkOf m) m) (w.data.db.watermarkOf m) ∧
    ∀ w', StepsIf (newsSys lib plainTask) inTurn w w' → w.data.db.watermarkOf m ≤ w'.data.db.watermarkOf m := by
  have newest := turns_keepNewest h₀ .refl h
  exact ⟨watermark_greatest lib h₀ newest m, fun w' run => watermark_rises lib h₀ newest (turns_keepNewest h₀ h run) m⟩

end Turns

/-- The delivery of the older article has read its log when the other one comes and goes, and reads
its market only then. -/
def readInTurn : List NewsMove :=
  twoDatedLogs ++
  [.start (.deliverBatch 4) (.job (.deliverBatch 4), sampleSettings)] ++
  execs sampleLib (sampleOracle "t") (.deliverBatch 4) 1 ++
  [.start (.deliverBatch 7) (.job (.deliverBatch 7), sampleSettings)] ++
  execs sampleLib (sampleOracle "t") (.deliverBatch 7) 18 ++
  execs sampleLib (sampleOracle "t") (.deliverBatch 4) 16

theorem watermark_kept_sample : ∃ w : NewsWorld,
    w.data.db.watermarkOf 1 = ((20 : Time) : WithBot Time) ∧ (∀ log ∈ w.data.db.logs, log.status = .success) ∧
    IsGreatest (w.data.db.deliveredDates (sampleData.db.watermarkOf 1) 1) (w.data.db.watermarkOf 1) := by
  have run : ((newsSys sampleLib plainTask).runIf inTurn sampleWorld readInTurn).map
      (fun w => decide (w.data.db.watermarkOf 1 = ((20 : Time) : WithBot Time)) &&
        w.data.db.logs.all fun log => log.status = .success) = some true := by
    decide +kernel
  obtain ⟨w, steps, hp⟩ := Sys.runIf_reaches run
  simp only [Bool.and_eq_true, decide_eq_true_eq, List.all_eq_true] at hp
  exact ⟨w, hp.1, hp.2, (watermark_kept sampleLib sampleData_initial steps 1).1⟩

/-- The delivery of the older article reads its market first and commits last. -/
def overlapping : List NewsMove :=
  twoDatedLogs ++
  [.start (.deliverBatch 4) (.job (.deliverBatch 4), sampleSettings)] ++
  execs sampleLib (sampleOracle "t") (.deliverBatch 4) 2 ++
  [.start (.deliverBatch 7) (.job (.deliverBatch 7), sampleSettings)] ++
  execs sampleLib (sampleOracle "t") (.deliverBatch 7) 18 ++
  execs sampleLib (sampleOracle "t") (.deliverBatch 4) 15

/-- An article of this date is delivered in the market. -/
def Database.hasDelivered (db : Database) (m : Uuid) (t : Time) : Bool :=
  db.logs.any fun log => log.marketId = m && log.status = .success &&
    db.items.any fun o => log.newsItemIds.contains o.id && o.publishedAt = some t

theorem mem_deliveredDates {db : Database} {first : WithBot Time} {m : Uuid} {t : Time}
    (h : db.hasDelivered m t = true) : (t : WithBot Time) ∈ db.deliveredDates first m := by
  simp only [Database.hasDelivered, List.any_eq_true, Bool.and_eq_true, decide_eq_true_eq,
    List.contains_iff_mem] at h
  obtain ⟨log, hl, ⟨hm, hs⟩, o, ho, hid, hd⟩ := h
  exact .inr ⟨log, hl, hm, hs, o, ho, hid, t, hd, rfl⟩

theorem lost_watermark : ∃ w w' : NewsWorld, Reachable (newsSys sampleLib plainTask) sampleData w ∧
    Step (newsSys sampleLib plainTask) w w' ∧ w'.data.db.watermarkOf 1 < w.data.db.watermarkOf 1 ∧
    (∀ log ∈ w'.data.db.logs, log.status = .success) ∧
    ¬IsGreatest (w'.data.db.deliveredDates (sampleData.db.watermarkOf 1) 1) (w'.data.db.watermarkOf 1) := by
  have run : ((newsSys sampleLib plainTask).run sampleWorld overlapping).map (fun w =>
      ((newsSys sampleLib plainTask).move w (.exec (.deliverBatch 4) (reply sampleLib (sampleOracle "t")))).any
        fun w' => decide (w.data.db.watermarkOf 1 = ((20 : Time) : WithBot Time)) &&
          decide (w'.data.db.watermarkOf 1 = ((10 : Time) : WithBot Time)) &&
          (w'.data.db.logs.all fun log => log.status = .success) && w'.data.db.hasDelivered 1 20) =
      some true := by
    decide +kernel
  obtain ⟨w, steps, hp⟩ := Sys.run_reaches run
  obtain ⟨w', hm, hp⟩ := (Option.any_eq_true _ _).mp hp
  simp only [Bool.and_eq_true, decide_eq_true_eq, List.all_eq_true] at hp
  obtain ⟨⟨⟨before, after⟩, success⟩, delivered⟩ := hp
  refine ⟨w, w', steps, Sys.move_step hm, ?_, success, fun greatest => ?_⟩
  · rw [before, after]
    exact WithBot.coe_lt_coe.mpr (by decide)
  · have le := greatest.2 (mem_deliveredDates delivered)
    rw [after] at le
    exact absurd (WithBot.coe_le_coe.mp le) (by decide)

end NewsNotifier
