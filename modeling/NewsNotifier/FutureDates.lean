import NewsNotifier.WatermarkUpdates
import NewsNotifier.CommittedRows

namespace NewsNotifier

open Interleaving KeyedRows

/-- The log that a write marks as a success. -/
def Write.success : Write → Option Uuid
  | .setLog id (.status .success) => some id
  | _ => none

/-- A commit with which a delivery succeeds finds no item of its log dated after the clock. -/
def timely : Allows := fun _ s _ l d =>
  !s.commits || (l.filterMap Write.success).all fun id => d.db.logs.all fun log => log.id ≠ id ||
    d.db.items.all fun o => !log.newsItemIds.contains o.id || o.publishedAt.all fun t => t ≤ d.clock

/-- A log that comes out as a success was one, or was marked so. -/
theorem success_staged {db : Database} {l : List Write} {id : Uuid} (old : ∀ x ∈ l, ∀ head ∈ x.log, head.id ≠ id)
    {log : DeliveryLog} (mem : log ∈ (db.after l).logs) (key : log.id = id) (done : log.status = .success) :
    (∃ log ∈ db.logs, log.id = id ∧ log.status = .success) ∨ id ∈ l.filterMap Write.success := by
  induction l generalizing db with
  | nil => exact .inl ⟨log, mem, key, done⟩
  | cons x l ih =>
    rcases ih (fun y hy => old y (List.mem_cons_of_mem _ hy)) mem with ⟨log', mem', key', done'⟩ | staged
    · cases x with
      | insertLog row =>
        rcases List.mem_append.mp mem' with mem' | mem'
        · exact .inl ⟨log', mem', key', done'⟩
        · obtain rfl := List.mem_singleton.mp mem'
          exact absurd key' (old _ List.mem_cons_self log'.head rfl)
      | setLog id' c =>
        obtain ⟨row, hr, rfl⟩ := mem_update.mp mem'
        by_cases same : row.id = id'
        · rw [if_pos same] at key' done'
          have id_eq : id' = id := same.symm.trans ((LogEffect.LogChange.id_apply c row).symm.trans key')
          cases c with
          | status s =>
            obtain rfl : s = .success := done'
            exact .inr (id_eq ▸ List.mem_cons_self)
          | _ => exact .inl ⟨row, hr, same.trans id_eq, done'⟩
        · rw [if_neg same] at key' done'
          exact .inl ⟨row, hr, key', done'⟩
      | _ => exact .inl ⟨log', mem', key', done'⟩
    · rw [List.filterMap_cons]
      split
      · exact .inr staged
      · exact .inr (List.mem_cons_of_mem _ staged)

/-- The row of a log keeps its id to itself. -/
theorem inserted_other {db : Database} {l : List Write} (unique : ((db.after l).logs.map (·.id)).Nodup)
    {log : DeliveryLog} (mem : log ∈ db.logs) : ∀ x ∈ l, ∀ head ∈ x.log, head.id ≠ log.id := by
  intro x hx head new same
  have ids : ((db.after l).tables.logs.map (·.id)).Nodup := by
    rw [Database.tables, List.map_map]
    exact unique
  rw [after_logs, List.map_append] at ids
  have first : log.head.id ∈ db.tables.logs.map (·.id) := List.mem_map_of_mem (List.mem_map_of_mem mem)
  have last : head.id ∈ (l.filterMap Write.log).map (·.id) := List.mem_map_of_mem (List.mem_filterMap.mpr ⟨x, hx, new⟩)
  exact (List.nodup_append.mp ids).2.2 _ first _ last same.symm

theorem exec_clock {lib : PyLib} {i : JobId} {s : Stmt} {r : Answer s} {l l' : List Write} {d d' : Data}
    (h : exec lib i s r l d = some (l', d')) : d'.clock = d.clock := by
  cases exec_outcome h with
  | _ => rfl

theorem clock_le {lib : PyLib} {admits : Admits} {w w' : NewsWorld} (h : Steps (newsSys lib admits) w w') :
    w.data.clock ≤ w'.data.clock := by
  induction h with
  | refl => exact le_rfl
  | tail _ step ih =>
    refine ih.trans ?_
    rcases newsSys_step step.restrict_true with ⟨i, s, r, l, l', _, hx⟩ | ⟨_, _, _, later, idle⟩
    · exact (exec_clock hx).ge
    · rw [idle]
      exact later

section Runs

variable {lib : PyLib} {d₀ : Data} {v v' w w' : NewsWorld} {m : Uuid}

/-- The step `v` to `v'` delivered a log of the market and gave it the watermark it has at `w`. -/
structure SetBy (S : Sys JobId Stmt Answer Raised (List Write) Data (Task × Settings) Time) (d₀ : Data) (m : Uuid)
    (v v' w : NewsWorld) : Prop where
  reach : Reachable S d₀ v
  step : Step S v v'
  delivered : ∃ log ∈ v.data.db.logs, log.marketId = m ∧ log.status ≠ .success ∧
    ∃ log' ∈ v'.data.db.logs, log'.id = log.id ∧ log'.status = .success
  changed : v'.data.db.watermarkOf m ≠ v.data.db.watermarkOf m
  kept : Keeping S (fun w => w.data.db.watermarkOf m) v' w

theorem filterOlderThanWatermark_keeps {candidates kept : List Candidate} {c : Candidate} {watermark : Option Time}
    (h : filterOlderThanWatermark lib candidates watermark = .ok kept) (mem : c ∈ candidates)
    (fresh : ∀ t w, readDate lib c.publishedAt = some t → watermark = some w → w ≤ t) : c ∈ kept := by
  unfold filterOlderThanWatermark at h
  split at h
  next => exact Except.ok.inj h ▸ mem
  next w =>
    obtain ⟨reads, rfl⟩ := datedFrom_ok.mp h
    refine List.mem_filter.mpr ⟨mem, ?_⟩
    obtain ⟨publishedAt, read⟩ := reads c mem
    rw [isDatedFrom, read]
    cases publishedAt with
    | none => rfl
    | some t => exact decide_eq_true (fresh t w (by rw [readDate, read]; rfl) rfl)

theorem timely_governs (lib : PyLib) : (deliveryContract False).Governs ((newsSys lib plainTask).restrict timely) :=
  deliveryContract_governs lib False.elim

theorem timely_dates {s : Stmt} {l : List Write} {d : Data} {i : JobId} {r : Answer s} (h : timely i s r l d = true)
    (commits : s.commits = true) {log : DeliveryLog} (mem : log ∈ d.db.logs)
    (staged : log.id ∈ l.filterMap Write.success) {o : NewsItem} (ho : o ∈ d.db.items) (listed : o.id ∈ log.newsItemIds)
    {t : Time} (date : o.publishedAt = some t) : t ≤ d.clock := by
  simp only [timely, commits, Bool.not_true, Bool.false_or, List.all_eq_true] at h
  have own := h log.id staged log mem
  simp only [ne_eq, not_true_eq_false, decide_false, Bool.false_or, List.all_eq_true] at own
  have item := own o ho
  simp only [listed, Bool.not_true, Bool.false_or, date, Option.all_some, decide_eq_true_eq, List.contains_eq_mem,
    decide_true] at item
  exact item

/-- In a timely run a delivery sets no watermark after the clock. -/
theorem timely_step (reach : Reachable ((newsSys lib plainTask).restrict timely) d₀ w) (h₀ : d₀.Initial)
    (step : Step ((newsSys lib plainTask).restrict timely) w w')
    (moved : w'.data.db.watermarkOf m ≠ w.data.db.watermarkOf m) :
    w'.data.db.watermarkOf m ≤ w.data.clock ∧ ∃ log ∈ w.data.db.logs, log.marketId = m ∧ log.status ≠ .success ∧
      ∃ log' ∈ w'.data.db.logs, log'.id = log.id ∧ log'.status = .success := by
  have governs := timely_governs lib
  have sound := governs.sound h₀.deliveryInv reach
  obtain ⟨sound', a, act⟩ := governs.step sound step
  have unique := sound.data.1.keyed.logs
  have moves : w'.data.deliveries.rows.watermark m ≠ w.data.deliveries.rows.watermark m := by
    intro same
    exact moved (((watermark_deliveryRows w'.data.db m).symm.trans same).trans (watermark_deliveryRows w.data.db m))
  obtain ⟨log, mem, _, market, open_, ⟨log', mem', key, done⟩, dates⟩ := act.2.watermark_moved unique moves
  refine ⟨?_, log, mem, market, open_, log', mem', key, done⟩
  have newest : w.data.deliveries.rows.Newest log (w'.data.db.watermarkOf m) :=
    (watermark_deliveryRows w'.data.db m) ▸ dates
  -- only a commit moves it, and the commit marks the log
  have staged : ∃ i s r l, s.commits = true ∧ timely i s r l w.data = true ∧ log.id ∈ l.filterMap Write.success := by
    rcases newsSys_step step with ⟨i, s, r, l, l', allowed, hx⟩ | ⟨_, _, _, _, idle⟩
    · have committed : s.commits = true ∧ w'.data.db.logs = (w.data.db.after l).logs := by
        generalize w'.data = d' at hx moved ⊢
        cases exec_outcome hx with
        | committed e => exact ⟨e ▸ rfl, rfl⟩
        | marketInserted row e => exact ⟨e ▸ rfl, rfl⟩
        | _ => exact absurd rfl moved
      obtain ⟨commits, logs⟩ := committed
      have after : log' ∈ w'.data.db.logs := mem'
      rw [logs] at after
      have distinct : ((w.data.db.after l).logs.map (·.id)).Nodup := logs ▸ sound'.data.1.keyed.logs
      rcases success_staged (inserted_other distinct mem) after key done with ⟨old, hold, same, was⟩ | marked
      · obtain rfl := List.inj_on_of_nodup_map unique hold mem same
        exact absurd was open_
      · exact ⟨i, s, r, l, commits, allowed, marked⟩
    · rw [idle] at moved
      exact absurd rfl moved
  obtain ⟨i, s, r, l, commits, allowed, marked⟩ := staged
  cases date : w'.data.db.watermarkOf m with
  | bot => exact bot_le
  | coe t =>
    obtain ⟨o, ho, listed, published⟩ := newest.attained t date
    exact WithBot.coe_le_coe.mpr (timely_dates allowed commits mem marked ho listed published)

/-- In the runs where no delivery succeeds with an item dated after the clock, a watermark that a
delivery set is not after the clock of that delivery, and a candidate dated from then on is kept. -/
theorem watermark_not_ahead (lib : PyLib) {d₀ : Data} (h₀ : d₀.Initial) {w : NewsWorld}
    (h : Reachable ((newsSys lib plainTask).restrict timely) d₀ w) (m : Uuid) :
    Keeping ((newsSys lib plainTask).restrict timely) (fun w => w.data.db.watermarkOf m) ⟨d₀, fun _ => none⟩ w ∨
    ∃ v v', SetBy ((newsSys lib plainTask).restrict timely) d₀ m v v' w ∧
      w.data.db.watermarkOf m ≤ v.data.clock ∧ v.data.clock ≤ w.data.clock ∧
      ∀ candidates kept c, filterOlderThanWatermark lib candidates (w.data.db.watermarkOf m) = .ok kept →
        c ∈ candidates → (∀ t, readDate lib c.publishedAt = some t → v.data.clock ≤ t) → c ∈ kept := by
  rcases Steps.last_change (fun w => w.data.db.watermarkOf m) h with kept | ⟨v, v', reach, step, changed, kept⟩
  · exact .inl kept
  · obtain ⟨le, delivered⟩ := timely_step reach h₀ step changed
    obtain ⟨later, same⟩ := kept.steps
    have clock : w.data.db.watermarkOf m ≤ v.data.clock := same ▸ le
    refine .inr ⟨v, v', ⟨reach, step, delivered, changed, kept⟩, clock, ?_, ?_⟩
    · exact clock_le (.head step.of_restrict later.of_restrict)
    · intro candidates kept c filtered mem fresh
      refine filterOlderThanWatermark_keeps filtered mem fun t watermark date set =>
        (WithBot.coe_le_coe.mp ?_).trans (fresh t date)
      exact (show w.data.db.watermarkOf m = (watermark : WithBot Time) from set) ▸ clock

end Runs

/-- At time zero, an article of this date is delivered but for the last commit. -/
def beforeSuccess (date : Int) : List NewsMove :=
  storesDated (.call 1) "a" "t" date ++
  [.start (.deliverBatch 4) (.job (.deliverBatch 4), sampleSettings)] ++
  execs sampleLib (sampleOracle "t") (.deliverBatch 4) 17

theorem watermark_not_ahead_sample : ∃ w v v' : NewsWorld, w.data.db.watermarkOf 1 = ((0 : Time) : WithBot Time) ∧
    SetBy ((newsSys sampleLib plainTask).restrict timely) sampleData 1 v v' w ∧
    w.data.db.watermarkOf 1 ≤ v.data.clock := by
  have run : (((newsSys sampleLib plainTask).restrict timely).run sampleWorld
      (beforeSuccess 0 ++ execs sampleLib (sampleOracle "t") (.deliverBatch 4) 1)).map (fun w =>
        decide (w.data.db.watermarkOf 1 = ((0 : Time) : WithBot Time))) = some true := by
    decide +kernel
  obtain ⟨w, steps, hp⟩ := Sys.run_reaches run
  have set := of_decide_eq_true hp
  rcases watermark_not_ahead sampleLib sampleData_initial steps 1 with kept | ⟨v, v', by_, le, _⟩
  · have same : w.data.db.watermarkOf 1 = sampleData.db.watermarkOf 1 := kept.steps.2
    rw [set] at same
    exact absurd same WithBot.coe_ne_bot
  · exact ⟨w, v, v', set, by_, le⟩

/-- An article dated 10 is delivered at time zero; at time 6 the filter drops one dated 5. -/
theorem poisoned_watermark : ∃ v v' w : NewsWorld, SetBy (newsSys sampleLib plainTask) sampleData 1 v v' w ∧
    v.data.clock < w.data.db.watermarkOf 1 ∧ v.data.clock ≤ 5 ∧ 5 ≤ w.data.clock ∧
    readDate sampleLib (datedCandidate "b" 5).publishedAt = some 5 ∧
    filterOlderThanWatermark sampleLib [datedCandidate "b" 5] (w.data.db.watermarkOf 1) = .ok [] := by
  have run : ((newsSys sampleLib plainTask).run sampleWorld (beforeSuccess 10)).map (fun w =>
      ((newsSys sampleLib plainTask).move w (.exec (.deliverBatch 4) (reply sampleLib (sampleOracle "t")))).any
        fun w' => decide (w.data.clock = 0) && decide (w'.data.clock = 0) &&
          decide (w.data.db.watermarkOf 1 = ⊥) && decide (w'.data.db.watermarkOf 1 = ((10 : Time) : WithBot Time)) &&
          w.data.db.logs.any (fun log => log.id == 4 && log.marketId == 1 && log.status != .success) &&
          w'.data.db.logs.any fun log => log.id == 4 && log.status == .success) = some true := by
    decide +kernel
  obtain ⟨v, steps, hp⟩ := Sys.run_reaches run
  obtain ⟨v', hm, hp⟩ := (Option.any_eq_true _ _).mp hp
  simp only [Bool.and_eq_true, decide_eq_true_eq, List.any_eq_true, beq_iff_eq, bne_iff_ne] at hp
  obtain ⟨⟨⟨⟨⟨clock, clock'⟩, unset⟩, set⟩, log, hl, ⟨id, market⟩, open_⟩, log', hl', id', done⟩ := hp
  have later : (newsSys sampleLib plainTask).env 6 v'.data = some { v'.data with clock := 6 } := by
    simp [newsSys, clock']
  refine ⟨v, v', ⟨{ v'.data with clock := 6 }, v'.proc⟩, ⟨steps, Sys.move_step hm, ?_, ?_, .single ⟨.env later, rfl⟩⟩,
    ?_, ?_, by simp, rfl, ?_⟩
  · exact ⟨log, hl, market, open_, log', hl', id'.trans id.symm, done⟩
  · rw [set, unset]
    exact WithBot.coe_ne_bot
  · show ((v.data.clock : Time) : WithBot Time) < v'.data.db.watermarkOf 1
    rw [clock, set]
    exact WithBot.coe_lt_coe.mpr (by decide)
  · rw [clock]
    decide
  · show filterOlderThanWatermark sampleLib [datedCandidate "b" 5] (v'.data.db.watermarkOf 1) = .ok []
    rw [set]
    rfl

end NewsNotifier
