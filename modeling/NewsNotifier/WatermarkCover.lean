import NewsNotifier.WatermarkRuns
import NewsNotifier.DeliveryTurns
import NewsNotifier.BoundedRetries

namespace NewsNotifier

open Interleaving KeyedRows

/-- In its last attempt an execution has no message refused by Telegram. -/
def sparesLast : Allows := fun i s r l d =>
  match i with
  | .deliverBatch logId => !s.rejects r || ((d.db.after l).logRow logId).all fun log =>
      d.redis.running.all fun e => e.id ≠ i || log.attempt < e.cfg.maxDeliveryAttempts
  | _ => true

/-- The deliveries take turns, and none fails at Telegram in its last attempt. -/
def covering : Allows := fun i s r l d => oneAtATime i s r l d && sparesLast i s r l d

section Turns

variable {lib : PyLib} {allow : Allows} {d₀ : Data} {w w' : NewsWorld}

/-- A commit that turns a log into a success is one of its own delivery. -/
theorem succeeding_own (h₀ : d₀.Initial) (reach : Reachable (newsSys lib plainTask) d₀ w) {i : JobId}
    {next : Unit → Program Unit} {l l' : List Write} {d' : Data} (hp : w.proc i = some (.stmt .commit next, l))
    (hx : exec lib i .commit () l w.data = some (l', d')) {log : DeliveryLog}
    (succeeds : log ∈ w.data.db.succeeding l) :
    i = .deliverBatch log.id := by
  obtain ⟨mem, turned⟩ := List.mem_filter.mp succeeds
  simp only [Bool.and_eq_true, decide_eq_true_eq, Option.any_eq_true] at turned
  obtain ⟨open_, log', after, done⟩ := turned
  by_contra ne
  have sound := (plain_governs lib).sound h₀.deliveryInv reach
  have there : w.data.db.logRow log.id = some log := find_of_mem sound.data.1.keyed.logs mem
  have step : Step (newsSys lib plainTask) w (w.set i (some (next (), l')) d') := .exec () hp hx
  have kept := others_logRow h₀ reach step (World.set_other w (Ne.symm ne) _ _) there
  obtain ⟨rfl, rfl⟩ := Prod.mk.inj (Option.some.inj hx)
  obtain rfl := Option.some.inj (after.symm.trans kept)
  exact open_ done

/-- The deliveries that take turns are in turn. -/
theorem turns_inTurn (turns : ∀ i s r l d, allow i s r l d = true → oneAtATime i s r l d = true) (h₀ : d₀.Initial)
    (h : Reachable ((newsSys lib plainTask).restrict allow) d₀ w) :
    StepsIf (newsSys lib plainTask) inTurn ⟨d₀, fun _ => none⟩ w := by
  induction h with
  | refl => exact .refl
  | @tail w w' reach step ih =>
    refine ih.tail ?_
    cases step with
    | @exec i s next l l' d' r hp hx =>
      obtain ⟨allowed, hx⟩ := Sys.exec_of_restrict hx
      have turn : inTurn w i s r l w.data = true := by
        unfold inTurn
        split
        next =>
          have plain := Steps.of_restrict reach
          have sound := (plain_governs lib).sound h₀.deliveryInv plain
          refine List.all_eq_true.mpr fun log succeeds => List.all_eq_true.mpr fun other memOther => ?_
          obtain rfl := succeeding_own h₀ plain hp hx succeeds
          have own := turns _ _ _ _ _ allowed
          have there : w.data.db.logRow log.id = some log :=
            find_of_mem sound.data.1.keyed.logs (List.mem_filter.mp succeeds).1
          simp only [oneAtATime, there, Option.all_some, Bool.and_eq_true, List.all_eq_true, Bool.or_eq_true,
            decide_eq_true_eq] at own
          cases live : w.proc (.deliverBatch other.id) with
          | none => simp [midway]
          | some q =>
            obtain ⟨w₁, job, tr, _, run⟩ := Execution.exists rfl plain live
            obtain ⟨spawned, entry⟩ := running_entry run
            have mem : (⟨.deliverBatch other.id, job.1, job.2, spawned⟩ : Running) ∈
                w.data.entriesOf (.deliverBatch other.id) := by
              rw [entry]
              exact List.mem_cons_self
            have found : w.data.db.logRow other.id = some other := find_of_mem sound.data.1.keyed.logs memOther
            rcases own.2 _ (List.mem_filter.mp mem).1 with same | away
            · injection same with same
              simp [same]
            · have elsewhere : other.marketId ≠ log.marketId := by simpa [Database.delivers, found] using away
              simp [elsewhere]
        next => rfl
      refine .exec r hp ?_
      show (if inTurn w i s r l w.data then exec lib i s r l w.data else none) = some (l', d')
      rw [if_pos turn]
      exact hx
    | start hp hs => exact .start hp hs
    | stop hp => exact .stop hp
    | env he => exact .env he

end Turns

section GivenUp

variable {lib : PyLib} {d₀ : Data} {logId : Uuid} {job : Task × Settings} {w w' : NewsWorld} {tr : List NewsEvent}

/-- A delivery that finds no log asks nothing more. -/
theorem deliverBatch_absent (cfg : Settings) (logId : Uuid) : (deliverBatch cfg logId).Obeys
    (Monitor.history (fun h s r => h = [] → s = .getLog logId → HEq r (none : Option DeliveryLog))
      fun h s => h = [] ∧ s = .getLog logId) (fun _ _ => True) (fun _ _ => True) [] := by
  refine ⟨⟨rfl, rfl⟩, fun found given => ?_⟩
  obtain rfl : found = none := eq_of_heq (given rfl rfl)
  exact True.intro

/-- The log of a delivery that has committed was there when it began to read. -/
theorem commit_found {e₀ e : NewsEvent} {rest : List NewsEvent}
    (run : Execution (newsSys lib plainTask) (.deliverBatch logId) job w tr w') (split : tr = e₀ :: rest) (he : e ∈ tr)
    (commits : e.stmt.commits = true) : ∃ row, e₀.data.db.logRow logId = some row := by
  by_contra absent
  have none : e₀.data.db.logRow logId = none := Option.eq_none_iff_forall_ne_some.mpr fun row found =>
      absent ⟨row, found⟩
  obtain ⟨before, after, cut⟩ := List.append_of_mem he
  have asked : before.map Event.said = [] ∧ e.stmt = .getLog logId := by
    refine run.recorded (fun p d hs => (delivery_started hs) ▸ deliverBatch_absent job.2 logId) ?_ cut
    intro before e' after cut first own
    have start : before = [] := List.map_eq_nil_iff.mp first
    subst start
    obtain ⟨rfl, _⟩ := List.cons.inj (split.symm.trans cut)
    obtain ⟨w₁, next, l, d, run₁, at_, live, hx, _⟩ := run.split cut
    have empty := run₁.unmoved live
    obtain ⟨s, r, l₀, d₁⟩ := e₀
    obtain rfl : s = .getLog logId := own
    obtain rfl : l₀ = [] := empty
    have hx : exec lib (.deliverBatch logId) (.getLog logId) r [] d₁ = some (l, d) := hx
    obtain ⟨ok, _, _⟩ := answered_eq hx
    have answer : r = d₁.db.logs.find? (·.id = logId) := of_decide_eq_true ok
    exact heq_of_eq (answer.trans none)
  rw [asked.2] at commits
  exact Bool.noConfusion commits

theorem covering_turns : ∀ i s r l d, covering i s r l d = true → oneAtATime i s r l d = true := by
  intro i s r l d h
  rw [covering, Bool.and_eq_true] at h
  exact h.1

/-- A covering execution is spared. -/
theorem covering_spares (run : Execution ((newsSys lib plainTask).restrict covering) (.deliverBatch logId) job w tr w') :
    ∀ e ∈ tr, SparedAt logId job.2.maxDeliveryAttempts e := by
  intro e he refused log view
  have allowed := run.allowed e he
  rw [covering, Bool.and_eq_true] at allowed
  have spares := allowed.2
  simp only [sparesLast, refused, Bool.not_true, Bool.false_or, view, Option.all_some, List.all_eq_true] at spares
  obtain ⟨before, after, split⟩ := List.append_of_mem he
  obtain ⟨w₁, _, _, _, run₁, at_, _⟩ := run.of_restrict.split split
  obtain ⟨spawned, entry⟩ := running_entry run₁
  have mem : (⟨.deliverBatch logId, job.1, job.2, spawned⟩ : Running) ∈ w₁.data.entriesOf (.deliverBatch logId) := by
    rw [entry]
    exact List.mem_cons_self
  have own := spares _ (at_ ▸ (List.mem_filter.mp mem).1)
  simp only [ne_eq, not_true_eq_false, decide_false, Bool.false_or, decide_eq_true_eq] at own
  exact own

/-- In the covering runs a log is given up only before its webhook went out. -/
theorem given_up_undelivered (h₀ : d₀.Initial) (h : Reachable ((newsSys lib plainTask).restrict covering) d₀ w) :
    ∀ log ∈ w.data.db.logs, log.status = .deadLetter → log.webhookDelivered = false := by
  induction h with
  | refl =>
    intro log mem
    rw [h₀.logs] at mem
    exact absurd mem List.not_mem_nil
  | @tail w w' reach step ih =>
    have plain := Steps.of_restrict reach
    intro log mem dead
    have sound := (plain_governs lib).sound h₀.deliveryInv plain
    by_cases same : w'.proc (.deliverBatch log.id) = w.proc (.deliverBatch log.id)
    · obtain ⟨a, ne, act⟩ := step.of_restrict.others (plain_governs lib) sound same
      rcases act.2.others_row sound.data.1.keyed.logs ne mem rfl with old | fresh
      · exact ih log old dead
      · exact DeliveryStatus.noConfusion (fresh.status.symm.trans dead)
    · rcases step.own same with ⟨s, next, l, r, l', d', hp, hx, rfl⟩ | ⟨j, p, d', _, hs, rfl⟩ | rfl
      · obtain ⟨w₁, job, tr, first, run⟩ := Execution.exists rfl reach hp
        have whole := run.exec r hp hx
        have hx : exec lib (.deliverBatch log.id) s r l w.data = some (l', d') := (Sys.exec_of_restrict hx).2
        have mem : log ∈ d'.db.logs := mem
        rcases exec_after hx with ⟨unchanged, _⟩ | ⟨commits, _⟩
        · exact ih log (unchanged ▸ mem) dead
        · obtain ⟨e₀, rest, split⟩ : ∃ e₀ rest, tr ++ [⟨s, r, l, w.data⟩] = e₀ :: rest := by
            cases tr with
            | nil => exact ⟨_, _, rfl⟩
            | cons e₀ tr => exact ⟨e₀, _, rfl⟩
          obtain ⟨row, found⟩ :=
            commit_found whole.of_restrict split (List.mem_append_right _ List.mem_cons_self) commits
          have foundRow : FoundRow log.id row (tr ++ [⟨s, r, l, w.data⟩]) d' := by
            rw [split]
            exact found
          obtain ⟨m, row', _, _, _, tally, _⟩ := execution_tally h₀ (Steps.of_restrict first) whole.of_restrict
            foundRow fun (_ : True) => covering_spares whole
          have unique := reachable_logs h₀ (plain.tail step.of_restrict)
          have there : d'.db.logRow log.id = some log := find_of_mem unique mem
          obtain rfl : m.row = log := Option.some.inj (row'.symm.trans there)
          have live : row.status ≠ .deadLetter := by
            have allowed := whole.allowed e₀ (split ▸ List.mem_cons_self)
            have turn := covering_turns _ _ _ _ _ allowed
            simp only [oneAtATime, found, Option.all_some, Bool.and_eq_true] at turn
            exact of_decide_eq_true turn.1
          cases delivered : m.row.webhookDelivered with
          | false => rfl
          | true => exact absurd True.intro (tally.deadLetter dead live delivered)
      · obtain ⟨_, _, _, _, rfl⟩ := @newsSys_start lib plainTask _ _ _ _ _ _ hs
        exact ih log mem dead
      · exact ih log mem dead

/-- In the runs where the deliveries of a market take turns and none fails at Telegram in its last
attempt, a terminal log whose webhook went out has the dates of its items under the watermark. -/
theorem watermark_covers (lib : PyLib) {d₀ : Data} (h₀ : d₀.Initial) {w : NewsWorld}
    (h : Reachable ((newsSys lib plainTask).restrict covering) d₀ w) {log : DeliveryLog} (mem : log ∈ w.data.db.logs)
    (done : log.terminal) (delivered : log.webhookDelivered = true) :
    ∀ o ∈ w.data.db.items, o.id ∈ log.newsItemIds → ∀ t : Time, o.publishedAt = some t →
      (t : WithBot Time) ≤ w.data.db.watermarkOf log.marketId := by
  intro o ho listed t date
  rcases done with success | dead
  · have newest := turns_keepNewest h₀ .refl (turns_inTurn covering_turns h₀ h)
    exact (watermark_greatest lib h₀ newest log.marketId).2 (.inr ⟨log, mem, rfl, success, o, ho, listed, t, date, rfl⟩)
  · rw [given_up_undelivered h₀ h log mem dead] at delivered
    exact Bool.noConfusion delivered

end GivenUp

/-- A log of an article dated 10, and executions on it, one after the other. -/
def datedLog : List NewsMove := storesDated (.call 3) "b" "t" 10

def triedMoves (status : Int) (n : Nat) : List NewsMove :=
  .start (.deliverBatch 4) (.job (.deliverBatch 4), telegramSettings) ::
    execs sampleLib (failingOracle (some "k") status) (.deliverBatch 4) n ++ [.stop (.deliverBatch 4)]

theorem watermark_covers_sample : ∃ w : NewsWorld, ∃ log ∈ w.data.db.logs, log.status = .success ∧ log.attempt = 2 ∧
    (∃ o ∈ w.data.db.items, o.id ∈ log.newsItemIds ∧ o.publishedAt = some 10) ∧
    ((10 : Time) : WithBot Time) ≤ w.data.db.watermarkOf log.marketId := by
  have run : (((newsSys sampleLib plainTask).restrict covering).run sampleWorld (datedLog ++ triedMoves 500 11 ++
      [.start (.deliverBatch 4) (.job (.deliverBatch 4), telegramSettings)] ++
      execs sampleLib (sampleOracle "t") (.deliverBatch 4) 23)).map (fun w =>
        w.data.db.logs.any fun log => log.status == .success && log.attempt == 2 && log.webhookDelivered &&
          w.data.db.items.any fun o => log.newsItemIds.contains o.id && o.publishedAt == some 10) = some true := by
    decide +kernel
  obtain ⟨w, steps, hp⟩ := Sys.run_reaches run
  simp only [List.any_eq_true, Bool.and_eq_true, beq_iff_eq, List.contains_iff_mem] at hp
  obtain ⟨log, mem, ⟨⟨success, attempt⟩, delivered⟩, o, ho, listed, date⟩ := hp
  exact ⟨w, log, mem, success, attempt, ⟨o, ho, listed, date⟩,
    watermark_covers sampleLib sampleData_initial steps mem (.inl success) delivered o ho listed 10 date⟩

/-- The webhook goes out in the last attempt and Telegram fails in it: the log is given up with its
webhook delivered, and the market has no watermark. -/
theorem uncovered_webhook : ∃ w : NewsWorld,
    Reachable ((newsSys sampleLib plainTask).restrict oneAtATime) sampleData w ∧
    ∃ log ∈ w.data.db.logs, log.status = .deadLetter ∧ log.webhookDelivered = true ∧
      (∃ o ∈ w.data.db.items, o.id ∈ log.newsItemIds ∧ o.publishedAt = some 10) ∧
      w.data.db.watermarkOf log.marketId = ⊥ := by
  have run : (((newsSys sampleLib plainTask).restrict oneAtATime).run sampleWorld (datedLog ++ triedMoves 500 11 ++
      triedMoves 500 11 ++ triedMoves 500 11 ++ triedMoves 500 11 ++ triedMoves 200 16)).map (fun w =>
        w.data.db.logs.any fun log => log.status == .deadLetter && log.webhookDelivered &&
          (w.data.db.items.any fun o => log.newsItemIds.contains o.id && o.publishedAt == some 10) &&
          decide (w.data.db.watermarkOf log.marketId = ⊥)) = some true := by
    decide +kernel
  obtain ⟨w, steps, hp⟩ := Sys.run_reaches run
  simp only [List.any_eq_true, Bool.and_eq_true, beq_iff_eq, List.contains_iff_mem, decide_eq_true_eq] at hp
  obtain ⟨log, mem, ⟨⟨dead, delivered⟩, o, ho, listed, date⟩, none⟩ := hp
  exact ⟨w, steps, log, mem, dead, delivered, ⟨o, ho, listed, date⟩, none⟩

end NewsNotifier
