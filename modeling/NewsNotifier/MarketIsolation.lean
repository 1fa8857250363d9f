import NewsNotifier.ReferentialIntegrity

namespace NewsNotifier

open Interleaving

/-- What an attempt has read when it sends: its log, the log's market, and the log's items. -/
structure Attempt (logId : Uuid) (log : DeliveryLog) (market : Market) (items : List NewsItem) (h : List NewsSaid) :
    Prop where
  read : [⟨.getLog logId, some log⟩, ⟨.getMarket log.marketId, some market⟩] <+: h
  listed : ∃ fetched, ⟨.itemsIn log.newsItemIds, fetched⟩ ∈ h ∧ items = inOrder log.newsItemIds fetched
  active : market.status = .active

/-- What an attempt may send after what was said. -/
def Addresses (cfg : Settings) (logId : Uuid) (h : List NewsSaid) : Stmt → Prop
  | .sendWebhook url secret payload => ∃ log market items, Attempt logId log market items h ∧
      url = market.callbackUrl ∧ ⟨.decryptSecret market.callbackSecretEncrypted, some secret⟩ ∈ h ∧
      payload.marketId = market.externalMarketId ∧ payload.batchId = log.batchId ∧ payload.news = items.map newsPayload
  | .sendTelegram token chatId marketId news => ∃ log market items, Attempt logId log market items h ∧
      token = cfg.telegramBotToken ∧ chatId = cfg.telegramChatId ∧ marketId = market.externalMarketId ∧
      ∃ o ∈ items, news = newsPayload o
  | _ => True

/-- The statements that send nothing. -/
def Stmt.mute : Stmt → Prop
  | .sendWebhook _ _ _ | .sendTelegram _ _ _ _ => False
  | _ => True

/-- The statements of the Telegram loop over these items. -/
def Stmt.announces (cfg : Settings) (market : Market) (items : List NewsItem) : Stmt → Prop
  | .sendWebhook _ _ _ => False
  | .sendTelegram token chatId marketId news => token = cfg.telegramBotToken ∧ chatId = cfg.telegramChatId ∧
      marketId = market.externalMarketId ∧ ∃ o ∈ items, news = newsPayload o
  | _ => True

section Program

variable {cfg : Settings} {market : Market} {log : DeliveryLog} {items : List NewsItem} {h : List NewsSaid}

theorem Stmt.mute.addresses {s : Stmt} (hs : s.mute) {logId : Uuid} : Addresses cfg logId h s := by
  unfold Stmt.mute at hs
  unfold Addresses
  split at hs <;> simp_all

theorem Stmt.mute.announces {s : Stmt} (hs : s.mute) : s.announces cfg market items := by
  unfold Stmt.mute at hs
  unfold Stmt.announces
  split at hs <;> simp_all

theorem Stmt.reading.mute {m : Uuid} {s : Stmt} (hs : s.reading m) : s.mute := by
  cases s <;> first | exact True.intro | exact hs.elim

theorem Stmt.batching.mute {m : Uuid} {s : Stmt} (hs : s.batching m) : s.mute := by
  cases s <;> first | exact True.intro | exact hs.elim

theorem recordFailure_mute (channel : String) (statusCode : Option Int) (error : Option String) :
    (recordFailure cfg log channel statusCode error).Each Stmt.mute fun _ => True := by
  refine ⟨True.intro, fun _ => ⟨True.intro, fun _ => ?_⟩⟩
  split
  next => exact ⟨True.intro, fun _ => ⟨True.intro, fun _ => True.intro⟩⟩
  next => exact ⟨True.intro, fun _ => ⟨True.intro, fun _ => True.intro⟩⟩

theorem finishDelivery_mute : (finishDelivery market log items).Each Stmt.mute fun _ => True := by
  have commit : (Prog.stmt .commit .ret : Program Unit).Each Stmt.mute fun _ => True :=
    ⟨True.intro, fun _ => True.intro⟩
  refine ⟨True.intro, fun _ => ⟨True.intro, fun _ => ⟨True.intro, fun now => ⟨True.intro, fun _ => ?_⟩⟩⟩⟩
  simp only [Prog.ret_bind, Prog.bind_eq]
  refine Prog.Each.bind (Prog.Each.forEach fun item _ => ⟨True.intro, fun _ => True.intro⟩) fun _ => ?_
  split
  next => exact commit
  next =>
    split
    next => exact (assignMarket_does market (by exact True.intro)).bind fun _ => commit
    next => exact commit

/-- Each message is for one of the items. -/
theorem telegramLoop_announces (rest : List NewsItem) (own : ∀ o ∈ rest, o ∈ items) (sent : List Uuid) :
    (telegramLoop cfg market log items rest sent).Each (Stmt.announces cfg market items) fun _ => True := by
  induction rest generalizing sent with
  | nil => exact finishDelivery_mute.mono (fun _ hs => hs.announces) fun _ h => h
  | cons item rest ih =>
    have later := ih fun o ho => own o (List.mem_cons_of_mem _ ho)
    unfold telegramLoop
    split
    next => exact later sent
    next =>
      refine ⟨⟨rfl, rfl, rfl, item, own item List.mem_cons_self, rfl⟩, fun answer => ?_⟩
      simp only [Prog.ret_bind]
      split
      next => exact True.intro
      next =>
        split
        next => exact (recordFailure_mute _ _ _).mono (fun _ hs => hs.announces) fun _ h => h
        next =>
          exact ⟨True.intro, fun _ => ⟨True.intro, fun _ => ⟨True.intro, fun _ => ⟨True.intro, fun _ => later _⟩⟩⟩⟩

theorem deliverTelegram_announces :
    (deliverTelegram cfg market log items).Each (Stmt.announces cfg market items) fun _ => True := by
  unfold deliverTelegram
  split
  next => exact telegramLoop_announces items (fun _ ho => ho) _
  next => exact finishDelivery_mute.mono (fun _ hs => hs.announces) fun _ h => h

theorem Attempt.later {logId : Uuid} (attempt : Attempt logId log market items h) (more : List NewsSaid) :
    Attempt logId log market items (h ++ more) := by
  obtain ⟨fetched, said, same⟩ := attempt.listed
  exact ⟨attempt.read.trans (List.prefix_append _ _), ⟨fetched, List.mem_append_left _ said, same⟩, attempt.active⟩

theorem Attempt.step {logId : Uuid} (attempt : Attempt logId log market items h) (x : NewsSaid) :
    Attempt logId log market items (h ++ [x]) :=
  attempt.later [x]

/-- The messages of an attempt are addressed as its reads say. -/
theorem Attempt.telegram {logId : Uuid} {log' : DeliveryLog} (attempt : Attempt logId log market items h) :
    (deliverTelegram cfg market log' items).Obeys (Monitor.history (fun _ _ _ => True) (Addresses cfg logId))
      (fun _ _ => True) (fun _ _ => True) h := by
  refine ((deliverTelegram_announces.obeys (O := Monitor.history _ fun _ => Stmt.announces cfg market items)
    (fun _ _ hs => hs)) h).restate fun more s announces => ?_
  cases s with
  | sendWebhook => exact announces.elim
  | sendTelegram token chatId marketId news => exact ⟨log, market, items, attempt.later more, announces⟩
  | _ => exact True.intro

theorem Attempt.webhook {logId : Uuid} {log' : DeliveryLog} (attempt : Attempt logId log market items h)
    {payload : WebhookPayload} (name : payload.marketId = market.externalMarketId) (key : payload.batchId = log.batchId)
    (news : payload.news = items.map newsPayload) :
    (deliverWebhook cfg market log' items payload).Obeys (Monitor.history (fun _ _ _ => True) (Addresses cfg logId))
      (fun _ _ => True) (fun _ _ => True) h := by
  refine ⟨True.intro, fun secret _ => ?_⟩
  simp only [Prog.ret_bind]
  split
  next => exact True.intro
  next secret _ =>
    have decrypted := attempt.step ⟨.decryptSecret market.callbackSecretEncrypted, some secret⟩
    have asked : Addresses cfg logId (h ++ [⟨.decryptSecret market.callbackSecretEncrypted, some secret⟩])
        (.sendWebhook market.callbackUrl secret payload) :=
      ⟨log, market, items, decrypted, rfl, List.mem_append_right _ List.mem_cons_self, name, key, news⟩
    refine ⟨asked, fun answer _ => ?_⟩
    simp only [Prog.ret_bind]
    split
    next => exact True.intro
    next =>
      split
      next => exact (recordFailure_mute _ _ _).obeys (fun _ _ hs => hs.addresses) _
      next =>
        refine ⟨True.intro, fun _ _ => ⟨True.intro, fun _ _ => ⟨True.intro, fun _ _ => ⟨True.intro, fun _ _ => ?_⟩⟩⟩⟩
        exact (((((decrypted.step _).step _).step _).step _).step _).telegram

theorem deliverBatch_addresses (cfg : Settings) (logId : Uuid) :
    (deliverBatch cfg logId).Obeys (Monitor.history (fun _ _ _ => True) (Addresses cfg logId))
      (fun _ _ => True) (fun _ _ => True) [] := by
  refine ⟨True.intro, fun found _ => ?_⟩
  simp only [Prog.ret_bind]
  split
  next => exact True.intro
  next log _ =>
    split
    next => exact True.intro
    next =>
      refine ⟨True.intro, fun foundMarket _ => ?_⟩
      simp only [Prog.ret_bind]
      split
      next => exact True.intro
      next market _ =>
        split
        next => exact True.intro
        next active =>
          refine ⟨True.intro, fun fetched _ => ⟨True.intro, fun now _ => ⟨True.intro, fun _ _ => ?_⟩⟩⟩
          have attempt : Attempt logId log market (inOrder log.newsItemIds fetched)
              [⟨.getLog logId, some log⟩, ⟨.getMarket log.marketId, some market⟩, ⟨.itemsIn log.newsItemIds, fetched⟩] :=
            ⟨⟨_, rfl⟩, ⟨fetched, by simp, rfl⟩, by simpa using active⟩
          have sends := (attempt.step ⟨.utcnow, now⟩).step ⟨.assign (.setLog log.id (.attempt (log.attempt + 1))), ()⟩
          simp only [Prog.ret_bind]
          split
          next => exact sends.telegram
          next => exact sends.webhook rfl rfl rfl

end Program

/-- The runs in which a token always decrypts to the same. -/
def decrypts (dec : String → Option String) : Allows
  | _, .decryptSecret token, secret, _, _ => secret = dec token
  | _, _, _, _, _ => true

def Sent.marketId : Sent → String
  | .webhook _ _ _ payload _ => payload.marketId
  | .telegram _ _ marketId _ _ => marketId

def Sent.news : Sent → List NewsPayload
  | .webhook _ _ _ payload _ => payload.news
  | .telegram _ _ _ news _ => [news]

section Runs

variable {lib : PyLib} {dec : String → Option String} {cfg : Settings} {d₀ : Data} {w w' : NewsWorld} {i : JobId}
  {job : Task × Settings} {tr : List NewsEvent}

theorem task_mute {task : Task} (other : ∀ logId, task ≠ .job (.deliverBatch logId)) :
    (taskProgram lib cfg task).Each Stmt.mute fun _ => True := by
  have reads : ∀ m s, Stmt.reading m s → s.mute := fun _ _ hs => hs.mute
  have does : ∀ m s, Stmt.batching m s → s.mute := fun _ _ hs => hs.mute
  have serves : Serves Stmt.mute :=
    ⟨reads, True.intro, fun _ _ _ => True.intro, fun _ => True.intro, fun _ => True.intro⟩
  refine taskProgram_does serves does (fun _ _ _ => True.intro) (fun _ _ => True.intro) (fun _ _ => True.intro)
    (fun _ _ _ _ _ _ => True.intro) fun j same => ?_
  cases j with
  | processMarket m =>
    exact processMarket_does m (fun _ => True.intro) reads does (fun _ => True.intro)
      (fun _ _ _ => True.intro) (fun _ _ _ => True.intro) (fun _ _ => True.intro) (fun _ _ _ => True.intro)
      (fun _ _ => True.intro) fun _ => True.intro
  | processCandidate m c b =>
    exact processCandidate_does m (fun _ => True.intro) reads does (fun _ _ _ _ => True.intro)
      (fun _ => True.intro) fun _ _ _ => True.intro
  | deliverBatch logId => exact absurd same (other logId)

theorem exec_sends {s : Stmt} {r : Answer s} {l l' : List Write} {d d' : Data} {x : Sent}
    (hx : exec lib i s r l d = some (l', d')) (new : x ∉ d.sent) (mem : x ∈ d'.sent) : s.Sends i x := by
  cases exec_outcome hx with
  | sent y sends =>
    obtain rfl := List.mem_singleton.mp ((List.mem_append.mp mem).resolve_left new)
    exact sends
  | _ => exact absurd mem new

theorem Stmt.Sends.loud {s : Stmt} {x : Sent} (sends : s.Sends i x) : ¬s.mute := by
  cases sends <;> exact id

/-- What sends is a delivery, under the id of its log. -/
theorem sender_task (run : Execution (newsSys lib serviceTask) i job w tr w') {e : NewsEvent} (he : e ∈ tr) {x : Sent}
    (sends : e.stmt.Sends i x) : ∃ logId, i = .deliverBatch logId ∧ job.1 = .job (.deliverBatch logId) := by
  obtain ⟨task, cfg⟩ := job
  obtain ⟨p, d, hs⟩ := run.started
  obtain ⟨named, _, _, _, _⟩ := newsSys_start hs
  by_cases other : ∀ logId, task ≠ .job (.deliverBatch logId)
  · have starts : ∀ p d', (newsSys lib serviceTask).start i (task, cfg) w.data = some (p, d') →
        p.Along (fun _ _ => True) Stmt.mute := by
      intro p d' hs
      obtain ⟨_, _, _, rfl, _⟩ := newsSys_start hs
      exact (task_mute other).along
    exact absurd (run.along starts (fun _ _ => True.intro) he) sends.loud
  · obtain ⟨logId, rfl⟩ := not_forall_not.mp other
    cases i with
    | deliverBatch id =>
      obtain rfl : id = logId := by simpa [Task.named] using named
      exact ⟨id, rfl, rfl⟩
    | _ => simp [Task.named] at named

/-- A message is sent by the delivery of a log, as that attempt's reads address it. -/
theorem sent_by (h₀ : d₀.Initial) (reach : Reachable ((newsSys lib serviceTask).restrict (decrypts dec)) d₀ w)
    {x : Sent} (mem : x ∈ w.data.sent) : ∃ logId job v tr e v', Reachable (newsSys lib serviceTask) d₀ v ∧
      Execution (newsSys lib serviceTask) (.deliverBatch logId) job v (tr ++ [e]) v' ∧
      Steps (newsSys lib serviceTask) v' w ∧ e.stmt.Sends (.deliverBatch logId) x ∧
      Addresses job.2 logId (tr.map Event.said) e.stmt ∧
      ∀ token secret, ⟨.decryptSecret token, secret⟩ ∈ tr.map Event.said → secret = dec token := by
  obtain ⟨i, job, v, tr, e, w₁, w₂, first, brings, rest⟩ := Steps.origin (P := fun d => x ∈ d.sent) (fun _ => rfl) reach
    (fun hs now => by obtain ⟨_, _, _, _, rfl⟩ := @newsSys_start lib serviceTask _ _ _ _ _ _ hs; exact now)
    (fun now => by exact now)
    (fun he now => by obtain ⟨_, rfl⟩ := @newsSys_env lib serviceTask _ _ _ he; exact now) (by simp [h₀.sent]) mem
  obtain ⟨next, l', live, hx, _⟩ := brings.executed
  have run := brings.after.of_restrict
  have own : e ∈ tr ++ [e] := List.mem_append_right _ List.mem_cons_self
  have sends := exec_sends (Sys.exec_of_restrict hx).2 brings.unseen brings.holds
  obtain ⟨logId, rfl, task⟩ := sender_task run own sends
  refine ⟨logId, job, v, tr, e, w₂, first.of_restrict, run, rest.of_restrict, sends, ?_, fun token secret said => ?_⟩
  · have starts : ∀ p d', (newsSys lib serviceTask).start (.deliverBatch logId) job v.data = some (p, d') →
        p.Obeys (Monitor.history (fun _ _ _ => True) (Addresses job.2 logId)) (fun _ _ => True) (fun _ _ => True) [] := by
      intro p d' hs
      obtain ⟨_, _, _, rfl, _⟩ := newsSys_start hs
      rw [task]
      exact deliverBatch_addresses job.2 logId
    exact run.recorded starts (fun _ _ _ _ => True.intro) rfl
  · obtain ⟨⟨s, r, l, d⟩, mem', same⟩ := List.mem_map.mp said
    obtain ⟨rfl, answer⟩ := Sigma.mk.inj same
    obtain rfl := eq_of_heq answer
    simpa [decrypts] using brings.before.allowed _ mem'

/-- The market's row that the attempt read, as it was committed. -/
theorem Attempt.row {logId : Uuid} {log : DeliveryLog} {market : Market} {items : List NewsItem} {e : NewsEvent}
    (attempt : Attempt logId log market items (tr.map Event.said))
    (run : Execution (newsSys lib serviceTask) i job w (tr ++ [e]) w') :
    (∃ v, Steps (newsSys lib serviceTask) w v ∧ Steps (newsSys lib serviceTask) v w' ∧
      log ∈ v.data.db.logs ∧ log.id = logId) ∧
    ∃ v, Steps (newsSys lib serviceTask) w v ∧ Steps (newsSys lib serviceTask) v w' ∧ market ∈ v.data.db.markets ∧
      market.id = log.marketId := by
  obtain ⟨more, said⟩ := attempt.read
  obtain ⟨first, rest, rfl, one, tail⟩ := List.map_eq_append_iff.mp said.symm
  obtain ⟨e₀, tl, rfl, same₀, two⟩ := List.map_eq_cons_iff.mp one
  obtain ⟨e₁, tl', rfl, same₁, none⟩ := List.map_eq_cons_iff.mp two
  obtain rfl := List.map_eq_nil_iff.mp none
  obtain ⟨s₀, r₀, l₀, d₀⟩ := e₀
  obtain ⟨s₁, r₁, l₁, d₁⟩ := e₁
  obtain ⟨rfl, answer⟩ := Sigma.mk.inj same₀
  obtain rfl := eq_of_heq answer
  obtain ⟨rfl, answer⟩ := Sigma.mk.inj same₁
  obtain rfl := eq_of_heq answer
  constructor
  · obtain ⟨_, _, _, _, start, _, live, _, _⟩ := run.split (List.nil_append _).symm
    obtain rfl : l₀ = [] := start.unmoved live
    obtain ⟨v, _, l', d', till, at_, hx, _, step, rest⟩ := run.event List.mem_cons_self
    have hx : exec lib i (.getLog logId) (some log) [] d₀ = some (l', d') := hx
    obtain ⟨ok, _, _⟩ := answered_eq hx
    obtain ⟨mem, key⟩ := KeyedRows.key_of_find (of_decide_eq_true ok).symm
    exact ⟨v, till, .head step rest, at_ ▸ mem, key⟩
  · obtain ⟨_, _, _, _, start, _, live, _, _⟩ := run.split (List.singleton_append).symm
    obtain rfl : l₁ = [] := by
      refine start.resting (fun e he l' d' hx => ?_) live
      obtain rfl := List.mem_singleton.mp he
      have hx : exec lib i (.getLog logId) (some log) l₀ d₀ = some (l', d') := hx
      exact (answered_eq hx).2.1
    obtain ⟨v, _, l', d', till, at_, hx, _, step, rest⟩ := run.event (List.mem_cons_of_mem _ List.mem_cons_self)
    have hx : exec lib i (.getMarket log.marketId) (some market) [] d₁ = some (l', d') := hx
    obtain ⟨ok, _, _⟩ := answered_eq hx
    obtain ⟨mem, key⟩ := KeyedRows.key_of_find (of_decide_eq_true ok).symm
    exact ⟨v, till, .head step rest, at_ ▸ mem, key⟩

/-- The items of an attempt are stored, and listed in its log. -/
theorem Attempt.stored {logId : Uuid} {log : DeliveryLog} {market : Market} {items : List NewsItem} {e : NewsEvent}
    (attempt : Attempt logId log market items (tr.map Event.said))
    (run : Execution (newsSys lib serviceTask) (.deliverBatch logId) job w (tr ++ [e]) w') :
    ∀ o ∈ items, o.id ∈ log.newsItemIds ∧ ∃ row ∈ w'.data.db.items, row.deliver = o.deliver := by
  obtain ⟨fetched, said, rfl⟩ := attempt.listed
  obtain ⟨b₁, b₂, l, d, l', d', split, hx⟩ := run.said_event rfl said
  have hx : exec lib (.deliverBatch logId) (.itemsIn log.newsItemIds) fetched l d = some (l', d') := hx
  obtain ⟨ok, rfl, rfl⟩ := answered_eq hx
  have each : (taskProgram lib job.2 job.1).Each (fun s => ∀ x, s.Stages x → x.item = none) fun _ => True := by
    rw [delivery_task (service_run run)]
    exact deliverBatch_stores job.2 logId
  have own : (⟨.itemsIn log.newsItemIds, fetched, l', d'⟩ : NewsEvent) ∈ tr ++ [e] :=
    split ▸ List.mem_append_right _ List.mem_cons_self
  have quiet := each_before run each (K := fun x => x.item = none) (fun _ _ h => h _) own
  obtain ⟨v, v', _, _, _, at_, _, _, step, rest⟩ := run.event own
  intro o ho
  obtain ⟨seen, listed⟩ := List.mem_filter.mp ((List.isPerm_iff.mp ok).mem_iff.mp (inOrder_stored o ho))
  have committed : o.deliver ∈ d'.db.tables.items := by
    have view : o.deliver ∈ (d'.db.after l').tables.items := List.mem_map_of_mem seen
    rwa [after_items, List.filterMap_eq_nil_iff.mpr quiet, List.append_nil] at view
  have kept := items_accrue.steps (.head step rest) (at_ ▸ committed : o.deliver ∈ v.data.db.tables.items)
  exact ⟨by simpa using listed, List.mem_map.mp kept⟩

end Runs

/-- A message is one of its log's market: sent by the delivery of that log, under the market's own name, with
items of that market that the log lists, and, where it goes to the subscriber, under the log's key, to the url
and with the secret of one committed row of the market that is active. -/
structure Isolated (lib : PyLib) (dec : String → Option String) (d₀ : Data) (w : NewsWorld) (x : Sent)
    (log : DeliveryLog) : Prop where
  sender : x.sender = .deliverBatch log.id
  name : ∃ market ∈ w.data.db.markets, market.id = log.marketId ∧ x.marketId = market.externalMarketId
  news : ∀ n ∈ x.news, ∃ o ∈ w.data.db.items, n = newsPayload o ∧ o.marketId = log.marketId ∧ o.id ∈ log.newsItemIds
  address : ∃ v, Reachable (newsSys lib serviceTask) d₀ v ∧ Steps (newsSys lib serviceTask) v w ∧
    ∃ market ∈ v.data.db.markets, market.id = log.marketId ∧ market.status = .active ∧
      ∀ i url secret payload answer, x = .webhook i url secret payload answer → payload.batchId = log.batchId ∧
        url = market.callbackUrl ∧ dec market.callbackSecretEncrypted = some secret

/-- No message of a market goes to another: each is one of its log's market, and of no other market. -/
theorem market_isolation (lib : PyLib) (dec : String → Option String) {d₀ : Data} (h₀ : d₀.Initial) {w : NewsWorld}
    (reach : Reachable ((newsSys lib serviceTask).restrict (decrypts dec)) d₀ w) :
    ∀ x ∈ w.data.sent, ∃ log ∈ w.data.db.logs, Isolated lib dec d₀ w x log := by
  intro x mem
  have all := reach.of_restrict
  obtain ⟨logId, job, v, tr, e, v', first, run, rest, sends, addresses, decrypted⟩ := sent_by h₀ reach mem
  have found : ∃ log market items, Attempt logId log market items (tr.map Event.said) ∧
      x.sender = .deliverBatch logId ∧ x.marketId = market.externalMarketId ∧
      (∀ n ∈ x.news, ∃ o ∈ items, n = newsPayload o) ∧
      ∀ i url secret payload answer, x = .webhook i url secret payload answer → payload.batchId = log.batchId ∧
        url = market.callbackUrl ∧ dec market.callbackSecretEncrypted = some secret := by
    obtain ⟨s, r, l, d⟩ := e
    cases sends with
    | webhook url secret payload answer =>
      obtain ⟨log, market, items, attempt, rfl, token, name, key, news⟩ := addresses
      refine ⟨log, market, items, attempt, rfl, name, fun n hn => ?_, fun _ _ _ _ _ same => ?_⟩
      · obtain ⟨o, ho, rfl⟩ := List.mem_map.mp (news ▸ hn : n ∈ items.map newsPayload)
        exact ⟨o, ho, rfl⟩
      · cases same
        exact ⟨key, rfl, (decrypted _ _ token).symm⟩
    | telegram token chatId marketId news answer =>
      obtain ⟨log, market, items, attempt, _, _, name, own⟩ := addresses
      refine ⟨log, market, items, attempt, rfl, name, fun n hn => ?_, fun _ _ _ _ _ same => by cases same⟩
      obtain rfl := List.mem_singleton.mp hn
      exact own
  obtain ⟨log, market, items, attempt, sender, name, news, address⟩ := found
  obtain ⟨⟨v₀, to₀, from₀, hl, key⟩, v₁, to₁, from₁, hm, owner⟩ := attempt.row run
  obtain ⟨log', hl', head⟩ := log_kept (from₀.trans rest) hl
  have id' : log'.id = log.id := congrArg LogHead.id head
  have market' : log'.marketId = log.marketId := congrArg LogHead.marketId head
  have batch' : log'.batchId = log.batchId := congrArg LogHead.batchId head
  have ids' : log'.newsItemIds = log.newsItemIds := congrArg LogHead.newsItemIds head
  refine ⟨log', hl', ?_, ?_, fun n hn => ?_, ?_⟩
  · rw [sender, id', key]
  · obtain ⟨row, hr, same⟩ :=
      List.mem_map.mp (markets_accrue.steps (from₁.trans rest) (List.mem_map_of_mem (f := Market.key) hm))
    exact ⟨row, hr, (congrArg Prod.fst same).trans (owner.trans market'.symm), name.trans (congrArg Prod.snd same).symm⟩
  · obtain ⟨o, ho, rfl⟩ := news n hn
    obtain ⟨listed, row, hr, same⟩ := attempt.stored run o ho
    obtain ⟨row', hr', same'⟩ := List.mem_map.mp (items_accrue.steps rest (List.mem_map_of_mem hr))
    have equal : row'.deliver = o.deliver := same'.trans same
    have payload : newsPayload row'.deliver = newsPayload o.deliver := congrArg newsPayload equal
    obtain ⟨_, stored⟩ := log_items h₀ all log' hl'
    obtain ⟨o', ho', key', own⟩ := stored o.id (ids' ▸ listed)
    have same_id : o'.id = row'.id := key'.trans (deliver_columns equal).1.symm
    obtain rfl := List.inj_on_of_nodup_map (item_keys (reachable_inv h₀ (service_steps all))) ho' hr' same_id
    exact ⟨o', hr', payload.symm, own, ids' ▸ key'.symm ▸ listed⟩
  · refine ⟨v₁, first.trans to₁, from₁.trans rest, market, hm, owner.trans market'.symm, attempt.active, ?_⟩
    rw [batch']
    exact address

/-- The same article is stored for two markets, and their deliveries overlap. -/
def deliveredApart : List NewsMove :=
  .start (.call 1) (.subscribe ⟨"n", "d", none, "v", "s", none⟩, sampleSettings) ::
    execs sampleLib (sampleOracle "t") (.call 1) 7 ++
  .start (.call 2) (.job (.processCandidate 1 (sampleCandidate "a") none), sampleSettings) ::
    execs sampleLib (sampleOracle "t") (.call 2) 13 ++
  .start (.call 3) (.job (.processCandidate 2 (sampleCandidate "a") none), sampleSettings) ::
    execs sampleLib (sampleOracle "t") (.call 3) 13 ++
  .start (.deliverBatch 5) (.job (.deliverBatch 5), sampleSettings) ::
    execs sampleLib (sampleOracle "t") (.deliverBatch 5) 4 ++
  .start (.deliverBatch 8) (.job (.deliverBatch 8), sampleSettings) ::
    execs sampleLib (sampleOracle "t") (.deliverBatch 8) 7 ++
  execs sampleLib (sampleOracle "t") (.deliverBatch 5) 3

theorem market_isolation_sample : ∃ w : NewsWorld, w.data.sent.map Sent.marketId = ["n", "m"] ∧
    ∀ x ∈ w.data.sent, x.news.length = 1 ∧ ∃ log ∈ w.data.db.logs,
    Isolated sampleLib (fun _ => some "k") sampleData w x log := by
  have run : (((newsSys sampleLib serviceTask).restrict (decrypts fun _ => some "k")).run sampleWorld deliveredApart).map
      (fun w => w.data.sent.map Sent.marketId == ["n", "m"] &&
        w.data.sent.all fun x => x.news.length == 1) = some true := by
    decide +kernel
  obtain ⟨w, reach, hp⟩ := Sys.run_reaches run
  simp only [Bool.and_eq_true, beq_iff_eq, List.all_eq_true] at hp
  exact ⟨w, hp.1, fun x mem => ⟨hp.2 x mem,
    market_isolation sampleLib (fun _ => some "k") sampleData_initial reach x mem⟩⟩

end NewsNotifier
