import NewsNotifier.DeliveryTally

namespace NewsNotifier

open Interleaving KeyedRows

/-- The status that a failed attempt leaves. -/
def failedStatus (maxAttempts attempt : Nat) : DeliveryStatus :=
  if maxAttempts ≤ attempt then .deadLetter else .failed

/-- What an execution has committed at any time, to the row it found; a `spared` one has no message
refused by Telegram in its last attempt. -/
structure Tally.Sound (maxAttempts : Nat) (spared : Prop) (row : DeliveryLog) (m : Tally) : Prop where
  kept : m.committed = false → m.row = row
  moved : m.committed = true → m.past = true ∧ m.row.attempt = row.attempt + 1 ∧
    (m.row.status = row.status ∨ m.row.status = .success ∨ m.row.status = failedStatus maxAttempts (row.attempt + 1))
  deadLetter : m.row.status = .deadLetter → row.status ≠ .deadLetter → m.row.webhookDelivered = true → ¬spared

/-- What it has committed when it ends. -/
structure Tally.Ended (maxAttempts : Nat) (spared : Prop) (row : DeliveryLog) (m : Tally) : Prop
    extends m.Sound maxAttempts spared row where
  terminal : m.past = true → m.raised = false → m.committed = true ∧
    (m.row.status = .success ∨ m.row.status = failedStatus maxAttempts (row.attempt + 1))

/-- The execution is past the guards and no channel has failed. -/
structure Tally.Trying (row : DeliveryLog) (m : Tally) : Prop where
  past : m.past = true
  raised : m.raised = false
  id : m.view.id = row.id
  attempt : m.view.attempt = row.attempt + 1
  status : m.view.status = row.status
  row : m.committed = false ∧ m.row = row ∨
    m.committed = true ∧ m.row.attempt = row.attempt + 1 ∧ m.row.status = row.status

/-- The delivery reads its log as its session has it. -/
def readsRow (logId : Uuid) (m : Tally) (s : Stmt) (r : Answer s) : Prop :=
  match s, r with
  | .getLog id, found => id = logId → found = some m.view
  | _, _ => True

def attempts (logId : Uuid) (maxAttempts : Nat) (spared : Prop) (row : DeliveryLog) : Monitor Stmt Answer Tally where
  next := Tally.next
  given m s r := readsRow logId m s r ∧ (spared → s.rejects r = true → m.view.attempt < maxAttempts)
  asked m _ := m.Sound maxAttempts spared row

abbrev Tallies (logId : Uuid) (maxAttempts : Nat) (spared : Prop) (row : DeliveryLog) (p : Program Unit) (m : Tally) :
    Prop :=
  p.Obeys (attempts logId maxAttempts spared row) (fun m _ => m.Ended maxAttempts spared row)
    (fun m _ => m.Ended maxAttempts spared row) m

section Programs

variable {logId : Uuid} {cfg : Settings} {spared : Prop} {row log : DeliveryLog} {market : Market}
    {items : List NewsItem} {m : Tally}

theorem Tally.Trying.sound (h : m.Trying row) : m.Sound cfg.maxDeliveryAttempts spared row := by
  rcases h.row with ⟨open_, same⟩ | ⟨committed, attempt, status⟩
  · refine ⟨fun _ => same, fun committed => ?_, fun dead live _ => ?_⟩
    · simp [open_] at committed
    · exact absurd (same ▸ dead) live
  · refine ⟨fun open_ => ?_, fun _ => ⟨h.past, attempt, .inl status⟩, fun dead live _ => ?_⟩
    · simp [committed] at open_
    · exact absurd (status ▸ dead) live

theorem Tally.Sound.view (h : m.Sound cfg.maxDeliveryAttempts spared row) (v : DeliveryLog) :
    ({ m with view := v } : Tally).Sound cfg.maxDeliveryAttempts spared row :=
  ⟨h.kept, h.moved, h.deadLetter⟩

theorem attempts_assign (logId : Uuid) (maxAttempts : Nat) (x : Write) (r : Unit) :
    (attempts logId maxAttempts spared row).next m (.assign x) r = { m with view := x.onLog m.view } :=
  Tally.next_assign m x r

theorem tallies_set {c : LogChange} {next : Unit → Program Unit} (h : m.Sound cfg.maxDeliveryAttempts spared row)
    (own : m.view.id = log.id)
    (rest : Tallies logId cfg.maxDeliveryAttempts spared row (next ()) { m with view := c.apply m.view }) :
    Tallies logId cfg.maxDeliveryAttempts spared row (.stmt (.assign (.setLog log.id c)) next) m := by
  refine ⟨h, fun r _ => ?_⟩
  rw [attempts_assign, Write.onLog, if_pos own]
  exact rest

/-- A statement that the tally does not count. -/
theorem tallies_quiet {s : Stmt} {next : Answer s → Program Unit} (h : m.Sound cfg.maxDeliveryAttempts spared row)
    (same : ∀ r, m.next s r = m) (rest : ∀ r, Tallies logId cfg.maxDeliveryAttempts spared row (next r) m) :
    Tallies logId cfg.maxDeliveryAttempts spared row (.stmt s next) m := by
  refine ⟨h, fun r _ => ?_⟩
  show Tallies logId cfg.maxDeliveryAttempts spared row (next r) (m.next s r)
  rw [same r]
  exact rest r

/-- The last commit of an execution decides. -/
theorem tallies_end {next : Unit → Program Unit} (h : m.Sound cfg.maxDeliveryAttempts spared row) (past : m.past = true)
    (attempt : m.view.attempt = row.attempt + 1)
    (status : m.view.status = .success ∨ m.view.status = failedStatus cfg.maxDeliveryAttempts (row.attempt + 1))
    (webhook : m.view.status = .deadLetter → m.view.webhookDelivered = true → ¬spared)
    (stops : next () = .ret () ∨ ∃ e, next () = .raise e) :
    Tallies logId cfg.maxDeliveryAttempts spared row (.stmt .commit next) m := by
  have final : (m.next .commit ()).Ended cfg.maxDeliveryAttempts spared row := by
    rw [Tally.next_commit]
    refine ⟨⟨fun open_ => ?_, fun _ => ⟨past, attempt, .inr status⟩, fun dead _ => webhook dead⟩,
      fun _ _ => ⟨rfl, status⟩⟩
    simp at open_
  refine ⟨h, fun r _ => ?_⟩
  rcases stops with stops | ⟨e, stops⟩
  · exact stops ▸ final
  · exact stops ▸ final

theorem recordFailure_tallies (h : m.Trying row) (own : log.id = row.id) (attempt : log.attempt = row.attempt + 1)
    (webhook : cfg.maxDeliveryAttempts ≤ row.attempt + 1 → m.view.webhookDelivered = true → ¬spared) (channel : String)
    (statusCode : Option Int) (error : Option String) :
    Tallies logId cfg.maxDeliveryAttempts spared row (recordFailure cfg log channel statusCode error) m := by
  have id : m.view.id = log.id := h.id.trans own.symm
  refine tallies_set h.sound id (tallies_set (h.sound.view _) id ?_)
  simp only [Prog.ret_bind, attempt]
  split
  next reached =>
    refine tallies_set (h.sound.view _) id (tallies_end (h.sound.view _) h.past h.attempt (.inr ?_)
      (fun _ => webhook reached) (.inl rfl))
    exact (if_pos reached).symm
  next under =>
    refine tallies_set (h.sound.view _) id
      (tallies_end (h.sound.view _) h.past h.attempt (.inr ?_) (fun dead => ?_) (.inr ⟨_, rfl⟩))
    · exact (if_neg under).symm
    · exact DeliveryStatus.noConfusion dead

theorem finishDelivery_tallies (h : m.Trying row) (own : log.id = row.id) :
    Tallies logId cfg.maxDeliveryAttempts spared row (finishDelivery market log items) m := by
  have id : m.view.id = log.id := h.id.trans own.symm
  have commit : ∀ m' : Tally, m'.Sound cfg.maxDeliveryAttempts spared row → m'.past = true →
      m'.view.attempt = row.attempt + 1 → m'.view.status = .success →
      Tallies logId cfg.maxDeliveryAttempts spared row (.stmt .commit .ret) m' := by
    intro m' sound past attempt done
    refine tallies_end sound past attempt (.inl done) (fun dead => ?_) (.inl rfl)
    rw [done] at dead
    exact DeliveryStatus.noConfusion dead
  refine tallies_set h.sound id (tallies_set (h.sound.view _) id (tallies_quiet (h.sound.view _) ?_ fun now => ?_))
  · exact fun _ => Tally.next_quiet rfl (fun _ => rfl) rfl rfl
  refine tallies_set (h.sound.view _) id ?_
  simp only [Prog.ret_bind, Prog.bind_eq]
  refine Prog.Obeys.bind (Prog.Obeys.mono (Prog.Obeys.forEach (K := fun _ m' => m'.Sound cfg.maxDeliveryAttempts spared row ∧
    m'.past = true ∧ m'.view.attempt = row.attempt + 1 ∧ m'.view.status = .success) ?_ items
      ⟨h.sound.view _, h.past, h.attempt, rfl⟩) ?_ fun _ _ h => h)
  · intro item rest m' kept
    refine ⟨kept.1, fun r _ => ?_⟩
    rw [attempts_assign]
    exact kept
  · rintro m' _ ⟨sound, past, attempt, done⟩
    split
    next => exact commit m' sound past attempt done
    next newest _ =>
      split
      next =>
        unfold assignMarket
        split
        next => exact commit m' sound past attempt done
        next =>
          refine ⟨sound, fun r _ => ?_⟩
          rw [attempts_assign]
          exact commit m' sound past attempt done
      next => exact commit m' sound past attempt done

/-- A channel answers or raises. -/
theorem tallies_call {s : Stmt} {next : Answer s → Program Unit} (h : m.Trying row) (commit : s.isCommit = false)
    (assign : ∀ row, s.onLog row = row) (passes : ∀ r, s.passes r = false)
    (raised : ∀ r, s.raises r = true → ∃ e, next r = .raise e)
    (rest : ∀ r, s.raises r = false → (spared → s.rejects r = true → m.view.attempt < cfg.maxDeliveryAttempts) →
      Tallies logId cfg.maxDeliveryAttempts spared row (next r) m) :
    Tallies logId cfg.maxDeliveryAttempts spared row (.stmt s next) m := by
  refine ⟨h.sound, fun r given => ?_⟩
  show Tallies logId cfg.maxDeliveryAttempts spared row (next r) (m.next s r)
  have sound : m.Sound cfg.maxDeliveryAttempts spared row := h.sound
  rw [Tally.next_call commit assign (passes r)]
  cases fails : s.raises r with
  | true =>
    obtain ⟨e, stops⟩ := raised r fails
    rw [stops, Bool.or_true]
    exact ⟨⟨sound.kept, sound.moved, sound.deadLetter⟩, fun _ quiet => Bool.noConfusion quiet⟩
  | false =>
    rw [Bool.or_false]
    exact rest r fails given.2

/-- The commit after a channel that succeeded. -/
theorem tallies_step {next : Unit → Program Unit} (h : m.Trying row)
    (rest : ({ m with row := m.view, committed := true } : Tally).Trying row →
      Tallies logId cfg.maxDeliveryAttempts spared row (next ()) { m with row := m.view, committed := true }) :
    Tallies logId cfg.maxDeliveryAttempts spared row (.stmt .commit next) m := by
  refine ⟨h.sound, fun r _ => ?_⟩
  show Tallies logId cfg.maxDeliveryAttempts spared row (next r) (m.next .commit r)
  rw [Tally.next_commit]
  exact rest ⟨h.past, h.raised, h.id, h.attempt, h.status, .inr ⟨rfl, h.attempt, h.status⟩⟩

/-- An assignment after which the execution is still trying. -/
theorem tallies_note {c : LogChange} {next : Unit → Program Unit} (h : m.Trying row) (own : log.id = row.id)
    (keeps : ∀ row, (c.apply row).attempt = row.attempt ∧ (c.apply row).status = row.status)
    (rest : ({ m with view := c.apply m.view } : Tally).Trying row →
      Tallies logId cfg.maxDeliveryAttempts spared row (next ()) { m with view := c.apply m.view }) :
    Tallies logId cfg.maxDeliveryAttempts spared row (.stmt (.assign (.setLog log.id c)) next) m := by
  obtain ⟨attempt, status⟩ := keeps m.view
  refine tallies_set h.sound (h.id.trans own.symm) (rest ⟨h.past, h.raised, ?_, ?_, ?_, h.row⟩)
  · exact (LogEffect.LogChange.id_apply c m.view).trans h.id
  · exact attempt.trans h.attempt
  · exact status.trans h.status

theorem telegramLoop_tallies (own : log.id = row.id) (attempt : log.attempt = row.attempt + 1) (rest : List NewsItem)
    (sent : List Uuid) (h : m.Trying row) :
    Tallies logId cfg.maxDeliveryAttempts spared row (telegramLoop cfg market log items rest sent) m := by
  induction rest generalizing sent m with
  | nil => exact finishDelivery_tallies h own
  | cons item rest ih =>
    unfold telegramLoop
    split
    next => exact ih sent h
    next =>
      refine tallies_call h rfl (fun _ => rfl) (fun _ => rfl) (fun answer raised => ?_)
        fun answer answered spares => ?_
      · rcases answer with e | answer
        · exact ⟨_, rfl⟩
        · exact Bool.noConfusion raised
      · rcases answer with e | ⟨statusCode, error⟩
        · exact Bool.noConfusion answered
        · simp only [Prog.ret_bind]
          split
          next failed =>
            refine recordFailure_tallies h own attempt (fun reached _ spared => ?_) _ _ _
            have under := spares spared failed
            rw [h.attempt] at under
            omega
          next =>
            refine tallies_note h own (fun _ => ⟨rfl, rfl⟩) fun h => ?_
            refine tallies_note h own (fun _ => ⟨rfl, rfl⟩) fun h => ?_
            refine tallies_note h own (fun _ => ⟨rfl, rfl⟩) fun h => ?_
            exact tallies_step h fun h => ih _ h

theorem deliverTelegram_tallies (own : log.id = row.id) (attempt : log.attempt = row.attempt + 1) (h : m.Trying row) :
    Tallies logId cfg.maxDeliveryAttempts spared row (deliverTelegram cfg market log items) m := by
  unfold deliverTelegram
  split
  next => exact telegramLoop_tallies own attempt _ _ h
  next => exact finishDelivery_tallies h own

theorem deliverWebhook_tallies (own : log.id = row.id) (attempt : log.attempt = row.attempt + 1)
    (undelivered : m.view.webhookDelivered = false) (h : m.Trying row) (payload : WebhookPayload) :
    Tallies logId cfg.maxDeliveryAttempts spared row (deliverWebhook cfg market log items payload) m := by
  refine tallies_call h rfl (fun _ => rfl) (fun _ => rfl) (fun secret raised => ?_) fun secret decrypted _ => ?_
  · rcases secret with _ | secret
    · exact ⟨_, rfl⟩
    · exact Bool.noConfusion raised
  rcases secret with _ | secret
  · exact Bool.noConfusion decrypted
  refine tallies_call h rfl (fun _ => rfl) (fun _ => rfl) (fun answer raised => ?_) fun answer answered _ => ?_
  · rcases answer with e | answer
    · exact ⟨_, rfl⟩
    · exact Bool.noConfusion raised
  rcases answer with e | ⟨statusCode, error⟩
  · exact Bool.noConfusion answered
  simp only [Prog.ret_bind]
  split
  next =>
    refine recordFailure_tallies h own attempt (fun _ delivered => ?_) _ _ _
    rw [show m.view.webhookDelivered = true from delivered] at undelivered
    exact Bool.noConfusion undelivered
  next =>
    refine tallies_note h own (fun _ => ⟨rfl, rfl⟩) fun h => ?_
    refine tallies_note h own (fun _ => ⟨rfl, rfl⟩) fun h => ?_
    refine tallies_note h own (fun _ => ⟨rfl, rfl⟩) fun h => ?_
    exact tallies_step h fun h => deliverTelegram_tallies own attempt h

/-- Every execution of `deliver_batch` on the log, from the row it finds. -/
theorem deliverBatch_tallies :
    Tallies logId cfg.maxDeliveryAttempts spared row (deliverBatch cfg logId) (.start row) := by
  have idle : (Tally.start row).Ended cfg.maxDeliveryAttempts spared row := by
    refine ⟨⟨fun _ => rfl, fun h => ?_, fun dead live => absurd dead live⟩, fun h => ?_⟩
    · exact Bool.noConfusion h
    · exact Bool.noConfusion h
  refine ⟨idle.toSound, fun found given => ?_⟩
  obtain rfl : found = some row := given.1 rfl
  show Tallies logId cfg.maxDeliveryAttempts spared row _ ((Tally.start row).next (.getLog logId) (some row))
  rw [Tally.next_quiet rfl (fun _ => rfl) rfl rfl]
  simp only [Prog.ret_bind]
  split
  next => exact idle
  next =>
    refine ⟨idle.toSound, fun found _ => ?_⟩
    rcases found with _ | market
    · exact idle
    · simp only [Prog.ret_bind]
      split
      next paused =>
        show Tally.Ended cfg.maxDeliveryAttempts spared row ((Tally.start row).next (.getMarket row.marketId) (some market))
        have stops : Stmt.passes (.getMarket row.marketId) (some market) = false := decide_eq_false paused
        rw [Tally.next_quiet rfl (fun _ => rfl) stops rfl]
        exact idle
      next active =>
        have passed : (Tally.start row).next (.getMarket row.marketId) (some market) =
            { Tally.start row with past := true } := by
          have status : market.status = .active := not_not.mp active
          simp [Tally.next, Tally.start, Stmt.isCommit, Stmt.onLog, Stmt.passes, Stmt.raises, status]
        show Tallies logId cfg.maxDeliveryAttempts spared row _
          ((Tally.start row).next (.getMarket row.marketId) (some market))
        rw [passed]
        have sound : ({ Tally.start row with past := true } : Tally).Sound cfg.maxDeliveryAttempts spared row :=
          ⟨fun _ => rfl, fun h => Bool.noConfusion h, fun dead live => absurd dead live⟩
        refine tallies_quiet sound (fun _ => Tally.next_quiet rfl (fun _ => rfl) rfl rfl) fun fetched => ?_
        refine tallies_quiet sound (fun _ => Tally.next_quiet rfl (fun _ => rfl) rfl rfl) fun now => ?_
        refine tallies_set sound rfl ?_
        have trying :
            ({ Tally.start row with past := true, view := { row with attempt := row.attempt + 1 } } : Tally).Trying row :=
          ⟨rfl, rfl, rfl, rfl, rfl, .inl ⟨rfl, rfl⟩⟩
        simp only [Prog.ret_bind]
        split
        next => exact deliverTelegram_tallies rfl rfl trying
        next undelivered =>
          refine deliverWebhook_tallies ?_ ?_ ?_ trying _
          · rfl
          · rfl
          · exact Bool.eq_false_iff.mpr undelivered

end Programs

/-- The execution got past the skip guards. -/
def past (tr : List NewsEvent) : Bool := tr.any fun e => e.stmt.passes e.answer

def committed (tr : List NewsEvent) : Bool := tr.any fun e => e.stmt.isCommit

/-- The decryption or a send raised. -/
def raised (tr : List NewsEvent) : Bool := tr.any fun e => e.stmt.raises e.answer

section Executions

variable {lib : PyLib} {d₀ : Data} {logId : Uuid} {job : Task × Settings} {w w' : NewsWorld} {tr : List NewsEvent}
  {row : DeliveryLog}

theorem delivery_started {p : Program Unit} {d : Data}
    (hs : (newsSys lib plainTask).start (.deliverBatch logId) job w.data = some (p, d)) :
    p = deliverBatch job.2 logId := by
  obtain ⟨task, cfg⟩ := job
  obtain ⟨named, _, _, rfl, _⟩ := @newsSys_start lib plainTask _ _ _ _ _ _ hs
  obtain rfl := named_delivery named
  rfl

theorem delivery_uninserting (run : Execution (newsSys lib plainTask) (.deliverBatch logId) job w tr w') :
    ∀ e ∈ tr, ∀ row, e.stmt ≠ .insertMarket row := by
  intro e he
  refine run.along (R := fun _ _ => True) (P := fun s => ∀ row, s ≠ .insertMarket row) (fun p d hs => ?_)
    (fun _ _ => True.intro) he
  rw [delivery_started hs]
  refine Prog.Each.along (deliverBatch_does (F := fun _ => True) (fun s delivering row same => ?_) (fun _ => True.intro)
    True.intro (fun _ _ _ row same => Stmt.noConfusion same) logId)
  rw [same] at delivering
  exact delivering

/-- In a spared execution no message is refused with the attempts used up. -/
def SparedAt (logId : Uuid) (maxAttempts : Nat) (e : NewsEvent) : Prop :=
  e.stmt.rejects e.answer = true → ∀ log, (e.data.db.after e.before).logRow logId = some log → log.attempt < maxAttempts

variable {maxAttempts : Nat} {spared : Prop}

theorem attempts_given (h₀ : d₀.Initial) (reach : Reachable (newsSys lib plainTask) d₀ w)
    (run : Execution (newsSys lib plainTask) (.deliverBatch logId) job w tr w') (found : FoundRow logId row tr w'.data)
    (spares : spared → ∀ e ∈ tr, SparedAt logId maxAttempts e) :
    (attempts logId maxAttempts spared row).Given (.start row) tr := by
  refine Monitor.given_of fun before e after split => ?_
  obtain ⟨w₁, next, l, d, first, at_, live, hx, _⟩ := run.split split
  have none : ∀ e ∈ before, ∀ row, e.stmt ≠ .insertMarket row :=
    fun e he => delivery_uninserting run e (split ▸ List.mem_append_left _ he)
  have found' : FoundRow logId row before w₁.data := by
    subst split
    cases before with
    | nil => exact at_ ▸ found
    | cons e₀ before => exact found
  obtain ⟨committed, staged⟩ := tallied (O := attempts logId maxAttempts spared row) rfl h₀ reach first none found' live
  have view : (e.data.db.after e.before).logRow logId =
      some ((attempts logId maxAttempts spared row).observe (.start row) before).view := by
    rw [← at_, logRow_after committed, staged]
  refine ⟨?_, fun on refused => spares on e (split ▸ List.mem_append_right _ List.mem_cons_self) refused _ view⟩
  obtain ⟨s, r, l₀, d₁⟩ := e
  replace hx : exec lib (.deliverBatch logId) s r l₀ d₁ = some (l, d) := hx
  show readsRow logId _ s r
  unfold readsRow
  split
  next id log _ =>
    intro own
    obtain ⟨ok, _, _⟩ := answered_eq hx
    have read : log = (d₁.db.after l₀).logRow id := of_decide_eq_true ok
    exact (own ▸ read).trans view
  next => exact True.intro

/-- What an execution has committed of its log, and how it ended. -/
theorem execution_tally (h₀ : d₀.Initial) (reach : Reachable (newsSys lib plainTask) d₀ w)
    (run : Execution (newsSys lib plainTask) (.deliverBatch logId) job w tr w') (found : FoundRow logId row tr w'.data)
    (spares : spared → ∀ e ∈ tr, SparedAt logId job.2.maxDeliveryAttempts e) :
    ∃ m : Tally, w'.data.db.logRow logId = some m.row ∧ m.past = past tr ∧ m.committed = committed tr ∧
      m.raised = raised tr ∧ m.Sound job.2.maxDeliveryAttempts spared row ∧
      (w'.ended (.deliverBatch logId) = true → m.Ended job.2.maxDeliveryAttempts spared row) := by
  obtain ⟨p, l, live⟩ := run.alive
  have obeys := run.obeys (O := attempts logId job.2.maxDeliveryAttempts spared row)
    (fun p d hs => (delivery_started hs) ▸ deliverBatch_tallies) (attempts_given h₀ reach run found spares) live
  obtain ⟨row', _⟩ := tallied (O := attempts logId job.2.maxDeliveryAttempts spared row) rfl h₀ reach run
    (delivery_uninserting run) found live
  have flags := @Monitor.observe_flag _ _ (List Write) Data Tally (attempts logId job.2.maxDeliveryAttempts spared row)
  refine ⟨_, row', ?_, ?_, ?_, ?_, fun ended => ?_⟩
  · exact flags Tally.past Stmt.passes (fun _ _ _ => rfl) _ tr
  · exact flags Tally.committed (fun s _ => s.isCommit) (fun _ _ _ => rfl) _ tr
  · exact flags Tally.raised Stmt.raises (fun _ _ _ => rfl) _ tr
  · cases p with
    | ret => exact obeys.toSound
    | raise => exact obeys.toSound
    | stmt => exact obeys.1
  · simp only [World.ended, live] at ended
    cases p with
    | ret => exact obeys
    | raise => exact obeys
    | stmt => exact Bool.noConfusion ended

end Executions

end NewsNotifier
