import NewsNotifier.BatchClosing
import NewsNotifier.FinalisedOrder
import NewsNotifier.PausedMarkets
import NewsNotifier.ResumableDelivery

namespace NewsNotifier

open Interleaving

/-- The Telegram loop over `zip(payload["news"], items, strict=True)`, as the source writes it. -/
def zippedLoop (cfg : Settings) (market : Market) (log : DeliveryLog) (items : List NewsItem) :
    List NewsPayload → List NewsItem → List Uuid → Program Unit
  | [], [], _ => finishDelivery market log items
  | news :: payload, item :: rest, sent =>
    if sent.contains item.id then zippedLoop cfg market log items payload rest sent
    else do
      let answer ← await (.sendTelegram cfg.telegramBotToken cfg.telegramChatId
        market.externalMarketId news)
      match answer with
      | .error _ => Prog.raise (.py .external)
      | .ok (statusCode, error) =>
        if sendFailed statusCode error then recordFailure cfg log "Telegram" statusCode error
        else do
          await (.assign (.setLog log.id (.telegramSentNewsItemIds (sent ++ [item.id]))))
          await (.assign (.setLog log.id (.statusCode statusCode)))
          await (.assign (.setLog log.id (.error none)))
          await .commit
          zippedLoop cfg market log items payload rest (sent ++ [item.id])
  | _, _, _ => Prog.raise (.py .valueError)

/-- The strict zip pairs every message with its item and raises nothing. -/
theorem zippedLoop_payload (cfg : Settings) (market : Market) (log : DeliveryLog)
    (items rest : List NewsItem) (sent : List Uuid) :
    zippedLoop cfg market log items (rest.map newsPayload) rest sent =
      telegramLoop cfg market log items rest sent := by
  induction rest generalizing sent with
  | nil => rfl
  | cons item rest ih =>
    unfold telegramLoop
    simp only [List.map_cons, zippedLoop, ih]
    split
    next => rfl
    next =>
      refine congrArg (Prog.stmt _) (funext fun answer => ?_)
      rcases answer with e | ⟨statusCode, error⟩
      · rfl
      · rfl

def Stmt.message : Stmt → Option NewsPayload
  | .sendTelegram _ _ _ news => some news
  | _ => none

def messages (h : List NewsSaid) : List NewsPayload := h.filterMap fun x => x.1.message

theorem messages_append (h more : List NewsSaid) : messages (h ++ more) = messages h ++ messages more :=
  List.filterMap_append

/-- What Telegram has not received before this attempt. -/
def unsent (log : DeliveryLog) (news : List NewsPayload) : List NewsPayload :=
  news.filter fun n => !log.telegramSentNewsItemIds.contains n.newsId

/-- What an attempt to deliver `news` may ask once `h` has been said. -/
def Carries (cfg : Settings) (log : DeliveryLog) (news : List NewsPayload) (h : List NewsSaid) : Stmt → Prop
  | .sendWebhook _ _ payload => payload.news = news
  | .sendTelegram _ _ _ message => messages h ++ [message] <+: unsent log news
  | .assign (.setLog id (.telegramSentNewsItemIds ids)) =>
    id = log.id ∧ ids = log.telegramSentNewsItemIds ++ (messages h).map (·.newsId)
  | .assign (.setLog _ (.status .success)) => cfg.telegramEnabled = true → messages h = unsent log news
  | _ => True

/-- The statements that carry nothing. -/
def Stmt.silent : Stmt → Prop
  | .sendWebhook _ _ _ | .sendTelegram _ _ _ _ | .assign (.setLog _ (.telegramSentNewsItemIds _))
  | .assign (.setLog _ (.status .success)) => False
  | _ => True

section Program

variable {cfg : Settings} {market : Market} {log : DeliveryLog} {items : List NewsItem}
  {news : List NewsPayload} {h : List NewsSaid}

theorem Stmt.silent.carries {s : Stmt} (hs : s.silent) : Carries cfg log news h s := by
  unfold Stmt.silent at hs
  unfold Carries
  split <;> first | exact True.intro | exact hs.elim

/-- The program asks what an attempt to deliver `news` may ask. -/
abbrev Sends (cfg : Settings) (log : DeliveryLog) (news : List NewsPayload) (h : List NewsSaid)
    (p : Program Unit) : Prop :=
  p.Obeys (Monitor.history (fun _ _ _ => True) (Carries cfg log news)) (fun _ _ => True) (fun _ _ => True) h

theorem sends_silent {p : Program Unit} {F : Raised → Prop} (each : p.Each Stmt.silent F) :
    Sends cfg log news h p :=
  each.obeys (fun _ _ hs => hs.carries) h

theorem sends_step {s : Stmt} {next : Answer s → Program Unit} (asked : Carries cfg log news h s)
    (rest : ∀ h' r, messages h' = messages h ++ s.message.toList → Sends cfg log news h' (next r)) :
    Sends cfg log news h (.stmt s next) := by
  refine ⟨asked, fun r _ => rest (h ++ [⟨s, r⟩]) r ?_⟩
  rw [messages_append]
  cases said : s.message <;> simp [messages, said]

/-- A statement that sends no message leaves the messages as they are. -/
theorem sends_still {s : Stmt} {next : Answer s → Program Unit} (asked : Carries cfg log news h s)
    (none : s.message = none)
    (rest : ∀ h' r, messages h' = messages h → Sends cfg log news h' (next r)) :
    Sends cfg log news h (.stmt s next) := by
  refine sends_step asked fun h' r said => rest h' r ?_
  rw [said, none, Option.toList_none, List.append_nil]

theorem recordFailure_sends (channel : String) (statusCode : Option Int) (error : Option String) :
    Sends cfg log news h (recordFailure cfg log channel statusCode error) := by
  refine sends_silent (F := fun _ => True) ⟨True.intro, fun _ => ⟨True.intro, fun _ => ?_⟩⟩
  split
  next => exact ⟨True.intro, fun _ => ⟨True.intro, fun _ => True.intro⟩⟩
  next => exact ⟨True.intro, fun _ => ⟨True.intro, fun _ => True.intro⟩⟩

theorem finishDelivery_sends (all : cfg.telegramEnabled = true → messages h = unsent log news) :
    Sends cfg log news h (finishDelivery market log items) := by
  have commit : (Prog.stmt .commit .ret : Program Unit).Each Stmt.silent fun _ => True :=
    ⟨True.intro, fun _ => True.intro⟩
  refine ⟨all, fun _ _ => sends_silent (F := fun _ => True) ?_⟩
  refine ⟨True.intro, fun _ => ⟨True.intro, fun now => ⟨True.intro, fun _ => ?_⟩⟩⟩
  simp only [Prog.ret_bind, Prog.bind_eq]
  refine Prog.Each.bind (Prog.Each.forEach fun item _ => ?_) fun _ => ?_
  · exact ⟨True.intro, fun _ => True.intro⟩
  · split
    next => exact commit
    next =>
      split
      next => exact (assignMarket_does market (by exact True.intro)).bind fun _ => commit
      next => exact commit

/-- The loop over what is left, once the messages are those of what is done. -/
theorem telegramLoop_sends (nodup : (news.map (·.newsId)).Nodup) (rest : List NewsItem)
    {done : List NewsPayload} (parts : news = done ++ rest.map newsPayload)
    (said : messages h = unsent log done) {sent : List Uuid}
    (marked : sent = log.telegramSentNewsItemIds ++ (messages h).map (·.newsId)) :
    Sends cfg log news h (telegramLoop cfg market log items rest sent) := by
  induction rest generalizing done h sent with
  | nil =>
    have whole : news = done := by simpa using parts
    exact finishDelivery_sends fun _ => whole ▸ said
  | cons item rest ih =>
    have parts' : news = (done ++ [newsPayload item]) ++ rest.map newsPayload := by simpa using parts
    have later : newsPayload item ∉ done ∧ ∀ n ∈ done, n.newsId ≠ item.id := by
      rw [parts, List.map_append, List.nodup_append] at nodup
      have apart : ∀ n ∈ done, n.newsId ≠ item.id := fun n hn =>
        nodup.2.2 n.newsId (List.mem_map_of_mem hn) item.id (by simp [newsPayload])
      exact ⟨fun own => apart _ own rfl, apart⟩
    unfold telegramLoop
    split
    next skipped =>
      refine ih parts' ?_ marked
      have old : item.id ∈ log.telegramSentNewsItemIds := by
        rw [marked, List.contains_iff_mem, List.mem_append] at skipped
        refine skipped.resolve_right fun own => ?_
        rw [said] at own
        obtain ⟨n, hn, key⟩ := List.mem_map.mp own
        exact later.2 n (List.mem_of_mem_filter hn) key
      simp [said, unsent, newsPayload, old]
    next asked =>
      have new : unsent log (done ++ [newsPayload item]) = messages h ++ [newsPayload item] := by
        have fresh : item.id ∉ log.telegramSentNewsItemIds := by
          intro old
          rw [marked, List.contains_iff_mem] at asked
          exact asked (List.mem_append_left _ old)
        simp [said, unsent, newsPayload, fresh]
      refine sends_step ?_ fun h₁ answer grown => ?_
      · show messages h ++ [newsPayload item] <+: unsent log news
        rw [parts', ← new]
        exact ⟨_, (List.filter_append _ _).symm⟩
      · have grown : messages h₁ = messages h ++ [newsPayload item] := grown
        simp only [Prog.ret_bind]
        split
        next => exact True.intro
        next =>
          split
          next => exact recordFailure_sends _ _ _
          next =>
            have sent' : sent ++ [item.id] =
                log.telegramSentNewsItemIds ++ (messages h₁).map (·.newsId) := by
              simp [grown, marked, newsPayload]
            refine sends_still ⟨rfl, sent'⟩ rfl fun h₂ _ same₂ => ?_
            refine sends_still True.intro rfl fun h₃ _ same₃ => ?_
            refine sends_still True.intro rfl fun h₄ _ same₄ => ?_
            refine sends_still True.intro rfl fun h₅ _ same₅ => ?_
            have same : messages h₅ = messages h₁ := by rw [same₅, same₄, same₃, same₂]
            exact ih parts' (same.trans (grown.trans new.symm)) (by rw [same, sent'])

theorem deliverTelegram_sends (nodup : ((items.map newsPayload).map (·.newsId)).Nodup) (none : messages h = []) :
    Sends cfg log (items.map newsPayload) h (deliverTelegram cfg market log items) := by
  unfold deliverTelegram
  split
  next =>
    have parts : items.map newsPayload = [] ++ items.map newsPayload := (List.nil_append _).symm
    refine telegramLoop_sends nodup items parts none ?_
    rw [none, List.map_nil, List.append_nil]
  next disabled => exact finishDelivery_sends fun enabled => absurd enabled disabled

theorem deliverWebhook_sends (nodup : ((items.map newsPayload).map (·.newsId)).Nodup) (none : messages h = [])
    {payload : WebhookPayload} (carried : payload.news = items.map newsPayload) :
    Sends cfg log (items.map newsPayload) h (deliverWebhook cfg market log items payload) := by
  refine sends_still True.intro rfl fun h₁ secret same₁ => ?_
  simp only [Prog.ret_bind]
  split
  next => exact True.intro
  next =>
    refine sends_still carried rfl fun h₂ answer same₂ => ?_
    simp only [Prog.ret_bind]
    split
    next => exact True.intro
    next =>
      split
      next => exact recordFailure_sends _ _ _
      next =>
        refine sends_still True.intro rfl fun h₃ _ same₃ => ?_
        refine sends_still True.intro rfl fun h₄ _ same₄ => ?_
        refine sends_still True.intro rfl fun h₅ _ same₅ => ?_
        refine sends_still True.intro rfl fun h₆ _ same₆ => ?_
        have same : messages h₆ = messages h := by rw [same₆, same₅, same₄, same₃, same₂, same₁]
        exact deliverTelegram_sends nodup (same.trans none)

/-- An attempt reads its log first and then the log's items, and carries these in their order. -/
def Assembles (cfg : Settings) (logId : Uuid) (h : List NewsSaid) (s : Stmt) : Prop :=
  s.silent ∨ ∃ log fetched, h.head? = some ⟨.getLog logId, some log⟩ ∧
    ⟨.itemsIn log.newsItemIds, fetched⟩ ∈ h ∧
    ((((inOrder log.newsItemIds fetched).map newsPayload).map (·.newsId)).Nodup →
      Carries cfg log ((inOrder log.newsItemIds fetched).map newsPayload) h s)

/-- An attempt once it has read its log and its items. -/
theorem attempt_assembles {logId : Uuid} {fetched : List NewsItem} {payload : WebhookPayload}
    (read : h.head? = some ⟨.getLog logId, some log⟩) (listed : ⟨.itemsIn log.newsItemIds, fetched⟩ ∈ h)
    (none : messages h = []) (carried : payload.news = (inOrder log.newsItemIds fetched).map newsPayload) :
    Prog.Obeys (Monitor.history (fun _ _ _ => True) (Assembles cfg logId))
      (fun _ _ => True) (fun _ _ => True) h
      (if log.webhookDelivered = true then
        deliverTelegram cfg market { log with attempt := log.attempt + 1 } (inOrder log.newsItemIds fetched)
      else deliverWebhook cfg market { log with attempt := log.attempt + 1 }
        (inOrder log.newsItemIds fetched) payload) := by
  have kept : ∀ more : List NewsSaid, (h ++ more).head? = some ⟨.getLog logId, some log⟩ ∧
      ⟨.itemsIn log.newsItemIds, fetched⟩ ∈ h ++ more := by
    intro more
    exact ⟨by rw [List.head?_append, read]; rfl, List.mem_append_left more listed⟩
  by_cases nodup : (((inOrder log.newsItemIds fetched).map newsPayload).map (·.newsId)).Nodup
  · refine Prog.Obeys.restate (A := Carries cfg { log with attempt := log.attempt + 1 }
      ((inOrder log.newsItemIds fetched).map newsPayload)) ?_ fun more s carries =>
        .inr ⟨log, fetched, (kept more).1, (kept more).2, fun _ => carries⟩
    split
    next => exact deliverTelegram_sends nodup none
    next => exact deliverWebhook_sends nodup none carried
  · exact ((Prog.Each.trivial _).obeys (O := Monitor.history _ fun _ _ => True) (fun _ _ _ => True.intro) h).restate
      fun more s _ => .inr ⟨log, fetched, (kept more).1, (kept more).2, fun distinct => absurd distinct nodup⟩

theorem deliverBatch_assembles (cfg : Settings) (logId : Uuid) :
    (deliverBatch cfg logId).Obeys (Monitor.history (fun _ _ _ => True) (Assembles cfg logId))
      (fun _ _ => True) (fun _ _ => True) [] := by
  refine ⟨.inl True.intro, fun found _ => ?_⟩
  simp only [Prog.ret_bind]
  split
  next => exact True.intro
  next log =>
    split
    next => exact True.intro
    next =>
      refine ⟨.inl True.intro, fun foundMarket _ => ?_⟩
      simp only [Prog.ret_bind]
      split
      next => exact True.intro
      next market =>
        split
        next => exact True.intro
        next =>
          refine ⟨.inl True.intro, fun fetched _ => ⟨.inl True.intro, fun now _ =>
            ⟨.inl True.intro, fun _ _ => ?_⟩⟩⟩
          simp only [Prog.ret_bind]
          exact attempt_assembles rfl (by simp [Monitor.history]) rfl rfl

end Program

/-- Dated items come first, the newest of them before the others; ties are in the order of discovery. -/
structure Newer (a b : NewsItem) : Prop where
  dated : ∀ t, b.publishedAt = some t → ∃ t', a.publishedAt = some t' ∧ t ≤ t'
  found : a.publishedAt = b.publishedAt → b.discoveredAt ≤ a.discoveredAt

theorem newer_of_before {a b : NewsItem} (h : orderedBefore a b = true) : Newer a b := by
  unfold orderedBefore at h
  split at h
  next x y ha hb =>
    simp only [Bool.or_eq_true, Bool.and_eq_true, decide_eq_true_eq] at h
    refine ⟨fun t same => ⟨x, ha, ?_⟩, fun same => ?_⟩
    · obtain rfl := Option.some.inj (hb.symm.trans same)
      exact h.elim (fun lt => Int.le_of_lt lt) fun tie => Int.le_of_eq tie.1.symm
    · obtain rfl := Option.some.inj (ha.symm.trans (same.trans hb))
      exact h.elim (fun lt => absurd lt (Int.lt_irrefl x)) fun tie => tie.2
  next x ha hb => exact ⟨by simp [hb], by simp [ha, hb]⟩
  next => simp at h
  next ha hb => exact ⟨by simp [hb], fun _ => of_decide_eq_true h⟩

theorem isOrdered_pairwise {items : List NewsItem} (h : isOrdered items = true) : items.Pairwise Newer := by
  induction items with
  | nil => exact .nil
  | cons a items ih =>
    simp only [isOrdered, Bool.and_eq_true, List.all_eq_true] at h
    exact .cons (fun b hb => newer_of_before (h.1 b hb)) (ih h.2)

/-- What a delivery carries, as the commit that created its log left the items: those of the batch
that it closed, or a solo one. -/
structure Finalises (v v' : NewsWorld) (log : DeliveryLog) (items : List NewsItem) : Prop where
  new : ∀ old ∈ v.data.db.logs, old.id ≠ log.id
  created : ∃ row ∈ v'.data.db.logs, row.head = log.head
  ids : items.map (·.id) = log.newsItemIds
  ordered : items.Pairwise Newer
  closing : (∃ row ∈ v'.data.db.batches, row.id = log.batchId ∧ row.status = .closed ∧
      (∃ old ∈ v.data.db.batches, old.id = row.id ∧ old.status = .opened) ∧
      items.Perm (v'.data.db.items.filter (·.batchId = some row.id))) ∨
    (∀ row ∈ v'.data.db.batches, row.id ≠ log.batchId) ∧ ∃ item ∈ v'.data.db.items, items = [item]

section Runs

variable {lib : PyLib} {d₀ : Data} {w w' : NewsWorld} {log : DeliveryLog}

theorem reachable_inv (h₀ : d₀.Initial) (reach : Reachable (newsSys lib plainTask) d₀ w) :
    w.data.ledger.Inv plainPolicy :=
  ((plainPolicy_governs lib).sound h₀.inv reach).data

/-- The step of a run that commits a log. -/
theorem log_created (h₀ : d₀.Initial) (reach : Reachable (newsSys lib plainTask) d₀ w)
    {head : LogHead} (mem : head ∈ w.data.db.tables.logs) :
    ∃ v v', Reachable (newsSys lib plainTask) d₀ v ∧ Step (newsSys lib plainTask) v v' ∧
      Steps (newsSys lib plainTask) v' w ∧ head ∉ v.data.db.tables.logs ∧ head ∈ v'.data.db.tables.logs := by
  rcases Steps.last_change (fun w => head ∈ w.data.db.tables.logs) reach with kept | ⟨v, v', first, step, changed, kept⟩
  · have none : head ∉ d₀.db.tables.logs := by simp [Database.tables, h₀.logs]
    exact absurd (kept.steps.2 ▸ mem) none
  · have now : head ∈ v'.data.db.tables.logs := kept.steps.2 ▸ mem
    exact ⟨v, v', first, step, kept.steps.1, fun old => changed (by simp [old, now]), now⟩

/-- The items of a log are stored with it. -/
theorem listed_stored (h₀ : d₀.Initial) (reach : Reachable (newsSys lib plainTask) d₀ w)
    {head : LogHead} (mem : head ∈ w.data.db.tables.logs) :
    head.newsItemIds.Nodup ∧ ∀ id ∈ head.newsItemIds, ∃ o ∈ w.data.db.items, o.id = id := by
  have listing := (reachable_inv h₀ reach).listing True.intro
  refine ⟨(List.nodup_flatMap.mp listing.nodup).1 head mem, fun id hid => ?_⟩
  obtain ⟨o, ho, key, _⟩ := listing.stored id (List.mem_flatMap.mpr ⟨head, mem, hid⟩)
  obtain ⟨o', ho', rfl⟩ := List.mem_map.mp ho
  exact ⟨o', ho', key⟩

theorem inOrder_stored {ids : List Uuid} {rows : List NewsItem} : ∀ o ∈ inOrder ids rows, o ∈ rows := by
  intro o ho
  obtain ⟨id, _, found⟩ := List.mem_filterMap.mp ho
  exact List.mem_of_find?_eq_some found

theorem pairwise_short {α : Type} {R : α → α → Prop} {xs : List α} (short : xs.length ≤ 1) : xs.Pairwise R := by
  cases xs with
  | nil => exact .nil
  | cons x xs =>
    have none : xs = [] := List.eq_nil_of_length_eq_zero (by rw [List.length_cons] at short; omega)
    rw [none]
    exact List.pairwise_singleton R x

theorem ordered_deliver {xs ys : List NewsItem} (same : xs.map NewsItem.deliver = ys.map NewsItem.deliver)
    (ordered : xs.Pairwise Newer) : ys.Pairwise Newer := by
  have delivered : (xs.map NewsItem.deliver).Pairwise Newer :=
    List.pairwise_map.mpr (ordered.imp fun newer => ⟨newer.dated, newer.found⟩)
  rw [same, List.pairwise_map] at delivered
  exact delivered.imp fun newer => ⟨newer.dated, newer.found⟩

theorem log_ordered (h₀ : d₀.Initial) (reach : Reachable (newsSys lib plainTask) d₀ w)
    {head : LogHead} (mem : head ∈ w.data.db.tables.logs) :
    (inOrder head.newsItemIds w.data.db.items).Pairwise Newer := by
  have ids := inOrder_ids (listed_stored h₀ reach mem).2
  rcases (sorted_reachable h₀ reach).logs head mem with short | ⟨items, listed, ordered, stored⟩
  · rw [← ids, List.length_map] at short
    exact pairwise_short short
  · refine ordered_deliver ?_ (isOrdered_pairwise ordered)
    refine KeyedRows.eq_of_keys (reachable_inv h₀ reach).rows.itemIds ?_ ?_ ?_
    · exact List.forall_mem_map.mpr stored
    · exact List.forall_mem_map.mpr fun o ho => List.mem_map_of_mem (inOrder_stored o ho)
    · rw [List.map_map, List.map_map]
      exact listed.symm.trans ids.symm

theorem item_keys (inv : w.data.ledger.Inv plainPolicy) : (w.data.db.items.map (·.id)).Nodup := by
  have unique := inv.rows.itemIds
  simp only [Data.ledger, Database.tables, List.map_map] at unique
  exact unique

/-- The items of a batch are of its market. -/
theorem batch_keys (inv : w.data.ledger.Inv plainPolicy) {row : NewsBatch} (hr : row ∈ w.data.db.batches) :
    (w.data.db.items.filter (·.batchId = some row.id)).map (·.id) =
      ((w.data.ledger.tables.itemsOf row.marketId).filter (·.batchId = some row.id)).map (·.id) := by
  have own : ∀ o ∈ w.data.db.items, o.batchId = some row.id → o.marketId = row.marketId := by
    intro o ho batch
    obtain ⟨row', hr', key, market⟩ := inv.rows.itemBatch o.deliver (List.mem_map_of_mem ho) row.id batch
    exact market.symm.trans (congrArg NewsBatch.marketId (inv.rows.unique hr' hr key))
  simp only [Tables.itemsOf, Data.ledger, Database.tables, List.filter_map, List.filter_filter, List.map_map]
  refine congrArg (List.map fun o : NewsItem => o.id) (List.filter_congr fun o ho => ?_)
  by_cases batch : o.batchId = some row.id
  · simp [batch, own o ho batch, NewsItem.deliver]
  · simp [batch, NewsItem.deliver]

/-- The commit that creates a log gathers the items of the batch it closes, in their order. -/
theorem log_finalises (h₀ : d₀.Initial) (reach : Reachable (newsSys lib plainTask) d₀ w) (mem : log ∈ w.data.db.logs) :
    ∃ v v', Reachable (newsSys lib plainTask) d₀ v ∧ Step (newsSys lib plainTask) v v' ∧
      Steps (newsSys lib plainTask) v' w ∧
        Finalises v v' log (inOrder log.newsItemIds v'.data.db.items) := by
  obtain ⟨v, v', first, step, last, unseen, seen⟩ := log_created h₀ reach (List.mem_map_of_mem mem)
  have reach' : Reachable (newsSys lib plainTask) d₀ v' := .tail first step
  obtain ⟨_, a, act⟩ := (plainPolicy_governs lib).step ((plainPolicy_governs lib).sound h₀.inv first) step
  have inv := reachable_inv h₀ reach'
  have ids : (inOrder log.newsItemIds v'.data.db.items).map (·.id) = log.newsItemIds :=
    inOrder_ids (listed_stored h₀ reach' seen).2
  refine ⟨v, v', first, step, last, ?_, List.mem_map.mp seen, ids, log_ordered h₀ reach' seen, ?_⟩
  · intro old mem' key
    have head : old.head ∈ v'.data.db.tables.logs := by
      obtain ⟨kept, mem'', same⟩ := log_kept (.single step) mem'
      exact same ▸ List.mem_map_of_mem mem''
    have same : old.head = log.head := List.inj_on_of_nodup_map inv.rows.logIds head seen key
    exact unseen (same ▸ List.mem_map_of_mem mem')
  · rcases act.gathered seen unseen with ⟨row, hr, opened, key, ⟨row', hr', same, market⟩, perm⟩ | ⟨apart, id, single⟩
    · have closed := inv.rows.keyClosed _ seen row' hr' (key.symm.trans same.symm)
      refine .inl ⟨row', hr', same.trans key, closed, ⟨row, hr, same.symm, opened⟩, ?_⟩
      have unique := item_keys inv
      refine KeyedRows.perm_of_keys unique inOrder_stored (fun _ => List.mem_of_mem_filter)
        (unique.sublist (List.filter_sublist.map _)) ?_
      rw [ids, batch_keys inv hr']
      exact same ▸ market ▸ perm
    · obtain ⟨item, rest, one, first_id, none⟩ := List.map_eq_cons_iff.mp (ids.trans single)
      have alone : inOrder log.newsItemIds v'.data.db.items = [item] := by rw [one, List.map_eq_nil_iff.mp none]
      have own : item ∈ inOrder log.newsItemIds v'.data.db.items := alone ▸ List.mem_cons_self
      exact .inr ⟨apart, item, inOrder_stored item own, alone⟩

/-- The read of its log is the first of a delivery, of the committed rows. -/
theorem first_read {i : JobId} {job : Task × Settings} {tr : List NewsEvent} {logId : Uuid}
    (run : Execution (newsSys lib plainTask) i job w tr w')
    (read : (tr.map Event.said).head? = some ⟨.getLog logId, some log⟩) :
    ∃ e rest, tr = e :: rest ∧ e.stmt = .getLog logId ∧ log ∈ e.data.db.logs ∧ log.id = logId := by
  rcases tr with _ | ⟨⟨s, r, l, d⟩, rest⟩
  · simp at read
  · obtain ⟨rfl, answer⟩ := Sigma.mk.inj (Option.some.inj read)
    obtain rfl := eq_of_heq answer
    have first : (⟨.getLog logId, some log, l, d⟩ : NewsEvent) :: rest =
        [] ++ ⟨.getLog logId, some log, l, d⟩ :: rest :=
      (List.nil_append _).symm
    obtain ⟨_, _, l', d', start, at_, live, hx, _⟩ := run.split first
    have none : l = [] := start.unmoved live
    have hx : exec lib i (.getLog logId) (some log) l d = some (l', d') := hx
    obtain ⟨ok, _, _⟩ := answered_eq hx
    rw [none] at ok
    obtain ⟨mem, key⟩ := KeyedRows.key_of_find (of_decide_eq_true ok).symm
    exact ⟨_, rest, rfl, rfl, mem, key⟩

theorem Stmt.delivering.stores {s : Stmt} (h : s.delivering) {x : Write} (stages : s.Stages x) : x.item = none := by
  rcases stages with writes | ⟨row, watermark, rfl, rfl⟩
  · cases writes with
    | item => exact h.elim
    | assigned x =>
      cases x with
      | insertItem => exact h.elim
      | _ => rfl
    | _ => rfl
  · rfl

theorem deliverBatch_stores (cfg : Settings) (logId : Uuid) :
    (deliverBatch cfg logId).Each (fun s => ∀ x, s.Stages x → x.item = none) fun _ => True := by
  refine deliverBatch_does (fun s h x stages => h.stores stages) (fun _ => True.intro) True.intro
    (fun url secret payload x stages => ?_) logId
  rcases stages with writes | ⟨row, watermark, _, same⟩
  · cases writes
  · exact Stmt.noConfusion same

/-- What a delivery fetches, in any order, is what the log's commit left. -/
theorem fetched_items {i : JobId} {fetched : List NewsItem} {l l' : List Write} {d d' : Data} {db : Database}
    (hx : exec lib i (.itemsIn log.newsItemIds) fetched l d = some (l', d')) (quiet : ∀ x ∈ l, x.item = none)
    (unique : (d.db.tables.items.map (·.id)).Nodup) (kept : ∀ o ∈ db.tables.items, o ∈ d.db.tables.items)
    (stored : ∀ id ∈ log.newsItemIds, ∃ o ∈ db.items, o.id = id) :
    (inOrder log.newsItemIds fetched).map newsPayload = (inOrder log.newsItemIds db.items).map newsPayload := by
  obtain ⟨ok, _, _⟩ := answered_eq hx
  have perm := List.isPerm_iff.mp ok
  have view : (d.db.after l).tables.items = d.db.tables.items := by
    rw [after_items, List.filterMap_eq_nil_iff.mpr quiet, List.append_nil]
  have found : ∀ id ∈ log.newsItemIds, ∃ o ∈ fetched, o.id = id := by
    intro id hid
    obtain ⟨o, ho, key⟩ := stored id hid
    have seen : o.deliver ∈ (d.db.after l).tables.items := view ▸ kept _ (List.mem_map_of_mem ho)
    obtain ⟨o', ho', same⟩ := List.mem_map.mp seen
    have key' : o'.id = id := (congrArg NewsItem.id same).trans key
    exact ⟨o', perm.mem_iff.mpr (List.mem_filter.mpr ⟨ho', by simp [key', hid]⟩), key'⟩
  have rows : (inOrder log.newsItemIds fetched).map NewsItem.deliver =
      (inOrder log.newsItemIds db.items).map NewsItem.deliver := by
    refine KeyedRows.eq_of_keys unique (List.forall_mem_map.mpr fun o ho => ?_)
      (List.forall_mem_map.mpr fun o ho => kept _ (List.mem_map_of_mem (inOrder_stored o ho))) ?_
    · have mem := List.mem_of_mem_filter (perm.mem_iff.mp (inOrder_stored o ho))
      exact view ▸ List.mem_map_of_mem mem
    · rw [List.map_map, List.map_map]
      exact (inOrder_ids found).trans (inOrder_ids stored).symm
  have payload : ∀ items : List NewsItem, items.map newsPayload = (items.map NewsItem.deliver).map newsPayload :=
    fun items => by
      rw [List.map_map]
      rfl
  rw [payload, rows, ← payload]

/-- The rows that a delivery finds after its first read are those of that read and later ones. -/
theorem later_items {i : JobId} {job : Task × Settings} {tr before after : List NewsEvent} {e₀ e : NewsEvent}
    (run : Execution (newsSys lib plainTask) i job w tr w') (split : tr = before ++ e :: after) (first : e₀ ∈ before) :
    ∀ o ∈ e₀.data.db.tables.items, o ∈ e.data.db.tables.items := by
  obtain ⟨w₁, _, _, _, start, at₁, _, _, _⟩ := run.split split
  obtain ⟨w₀, _, _, _, _, at₀, _, _, step, last⟩ := start.event first
  obtain ⟨k, grown⟩ := steps_after (.head step last)
  intro o ho
  rw [← at₁, grown]
  exact append_kept w₀.data.db [] k o (at₀ ▸ ho)

theorem delivery_task {logId : Uuid} {job : Task × Settings} {tr : List NewsEvent}
    (run : Execution (newsSys lib plainTask) (.deliverBatch logId) job w tr w') :
    job.1 = .job (.deliverBatch logId) := by
  obtain ⟨p, d, hs⟩ := run.started
  obtain ⟨named, _, _, _, _⟩ := newsSys_start hs
  exact named_delivery named

theorem carried_payload (h₀ : d₀.Initial) (reach : Reachable (newsSys lib plainTask) d₀ w) {logId : Uuid}
    {job : Task × Settings} {tr rest before after : List NewsEvent} {e₀ e : NewsEvent} {fetched : List NewsItem}
    (run : Execution (newsSys lib plainTask) (.deliverBatch logId) job w tr w') (split₀ : tr = e₀ :: rest)
    (stmt₀ : e₀.stmt = .getLog logId) (split : tr = before ++ e :: after)
    (said : ⟨.itemsIn log.newsItemIds, fetched⟩ ∈ before.map Event.said) {db : Database}
    (kept : ∀ o ∈ db.tables.items, o ∈ e₀.data.db.tables.items)
    (stored : ∀ id ∈ log.newsItemIds, ∃ o ∈ db.items, o.id = id) :
    (inOrder log.newsItemIds fetched).map newsPayload = (inOrder log.newsItemIds db.items).map newsPayload := by
  obtain ⟨⟨s, r, l, d⟩, mem, same⟩ := List.mem_map.mp said
  obtain ⟨rfl, answer⟩ := Sigma.mk.inj same
  obtain rfl := eq_of_heq answer
  have own : (⟨.itemsIn log.newsItemIds, r, l, d⟩ : NewsEvent) ∈ tr := split ▸ List.mem_append_left _ mem
  obtain ⟨b₁, b₂, parts⟩ := List.append_of_mem own
  have first : e₀ ∈ b₁ := by
    rw [split₀] at parts
    cases b₁ with
    | nil =>
      rw [(List.cons.inj parts).1] at stmt₀
      exact Stmt.noConfusion stmt₀
    | cons x b₁ => exact (List.cons.inj parts).1 ▸ List.mem_cons_self
  obtain ⟨w₂, _, l', d', start, at₂, _, hx, _⟩ := run.split parts
  have hx : exec lib (.deliverBatch logId) (.itemsIn log.newsItemIds) r l d = some (l', d') := hx
  have each : (taskProgram lib job.2 job.1).Each (fun s => ∀ x, s.Stages x → x.item = none) fun _ => True := by
    rw [delivery_task run]
    exact deliverBatch_stores job.2 logId
  have unique : (d.db.tables.items.map (·.id)).Nodup := by
    have inv := reachable_inv h₀ (reach.trans start.steps)
    rw [at₂] at inv
    exact inv.rows.itemIds
  exact fetched_items hx (each_before run each (fun _ _ h => h _) own) unique
    (fun o ho => later_items run parts first o (kept o ho)) stored

/-- Delivered order: each attempt to deliver a log carries, in one order, exactly the items that the
commit of the log gathered; the webhook lists them, Telegram gets those not sent before, each
marked as its own, and the strict zip pairs them without an error. -/
theorem delivered_order (lib : PyLib) {d₀ : Data} (h₀ : d₀.Initial) {w w' : NewsWorld}
    (reach : Reachable (newsSys lib plainTask) d₀ w) {logId : Uuid} {job : Task × Settings} {tr : List NewsEvent}
    (run : Execution (newsSys lib plainTask) (.deliverBatch logId) job w tr w') {log : DeliveryLog}
    (read : (tr.map Event.said).head? = some ⟨.getLog logId, some log⟩) :
    (∃ v v' items, Reachable (newsSys lib plainTask) d₀ v ∧ Step (newsSys lib plainTask) v v' ∧
      Steps (newsSys lib plainTask) v' w' ∧ Finalises v v' log items ∧
        ∀ before e after, tr = before ++ e :: after →
          Carries job.2 log (items.map newsPayload) (before.map Event.said) e.stmt) ∧
    ∀ (market : Market) (log' : DeliveryLog) (items : List NewsItem) (sent : List Uuid),
      zippedLoop job.2 market log' items (items.map newsPayload) items sent =
        telegramLoop job.2 market log' items items sent := by
  refine ⟨?_, fun market log' items sent => zippedLoop_payload job.2 market log' items items sent⟩
  obtain ⟨e₀, rest, split₀, stmt₀, mem₀, key₀⟩ := first_read run read
  obtain ⟨w₀, w₁, _, _, first, at₀, _, _, step₀, last⟩ := run.event (split₀ ▸ List.mem_cons_self)
  obtain ⟨v, v', start, step, grown, final⟩ := log_finalises h₀ (reach.trans first) (at₀ ▸ mem₀ : log ∈ w₀.data.db.logs)
  refine ⟨v, v', _, start, step, grown.trans (.head step₀ last), final, fun before e after split => ?_⟩
  have starts : ∀ p d', (newsSys lib plainTask).start (.deliverBatch logId) job w.data = some (p, d') →
      p.Obeys (Monitor.history (fun _ _ _ => True) (Assembles job.2 logId)) (fun _ _ => True) (fun _ _ => True) [] := by
    intro p d' hs
    obtain ⟨_, _, _, rfl, _⟩ := newsSys_start hs
    rw [delivery_task run]
    exact deliverBatch_assembles job.2 logId
  rcases run.recorded starts (fun _ _ _ _ => True.intro) split with silent | ⟨log', fetched, head, said, carries⟩
  · exact silent.carries
  · have same : log' = log := by
      rw [split, List.map_append, List.head?_append, head] at read
      simpa using read
    subst same
    have kept : ∀ o ∈ v'.data.db.tables.items, o ∈ e₀.data.db.tables.items := by
      obtain ⟨k, after⟩ := steps_after grown
      intro o ho
      rw [← at₀, after]
      exact append_kept v'.data.db [] k o ho
    obtain ⟨distinct, stored⟩ := listed_stored h₀ (start.tail step) (List.mem_map.mpr final.created)
    have payload := carried_payload h₀ reach run split₀ stmt₀ split said kept stored
    rw [payload] at carries
    refine carries ?_
    rw [List.map_map]
    exact (congrArg List.Nodup final.ids).mpr distinct

end Runs

/-- The log that an execution has read first. -/
def firstLog (logId : Uuid) : List NewsEvent → Option DeliveryLog
  | ⟨.getLog id, found, _, _⟩ :: _ => if id = logId then found else none
  | _ => none

theorem firstLog_said {logId : Uuid} {tr : List NewsEvent} {log : DeliveryLog} (h : firstLog logId tr = some log) :
    (tr.map Event.said).head? = some ⟨.getLog logId, some log⟩ := by
  unfold firstLog at h
  split at h
  next id found _ _ _ =>
    split at h
    next same => rw [List.map_cons, List.head?_cons, ← same, ← h]; rfl
    next => simp at h
  next => simp at h

/-- The news of a webhook or of a message. -/
def Stmt.newsIds : Stmt → List Uuid
  | .sendWebhook _ _ payload => payload.news.map (·.newsId)
  | .sendTelegram _ _ _ news => [news.newsId]
  | _ => []

/-- A batch of two; the later item closes it. -/
def twoStored : List NewsMove :=
  [.start (.call 1) (.openBatch 1 2, sampleSettings)] ++ execs sampleLib (sampleOracle "t") (.call 1) 2 ++
  [.start (.call 2) (.job (.processCandidate 1 (sampleCandidate "a") (some 2)), sampleSettings)] ++
  execs sampleLib (sampleOracle "t") (.call 2) 13 ++
  [.env 5, .start (.call 3) (.job (.processCandidate 1 (sampleCandidate "b") (some 2)), sampleSettings)] ++
  execs sampleLib (sampleOracle "uu") (.call 3) 16

theorem delivered_order_sample :
    ∃ (w v v' : NewsWorld) (log : DeliveryLog) (items : List NewsItem) (tr : List NewsEvent),
    Reachable (newsSys sampleLib plainTask) sampleData w ∧ Finalises v v' log items ∧
    items.map (·.id) = [4, 3] ∧ tr.flatMap (fun e => e.stmt.newsIds) = [4, 3, 4, 3] ∧
    ∀ before e after, tr = before ++ e :: after →
      Carries telegramSettings log (items.map newsPayload) (before.map Event.said) e.stmt := by
  have run : ((newsSys sampleLib plainTask).run sampleWorld twoStored).any (fun w =>
      ((newsSys sampleLib plainTask).execute (.deliverBatch 5) (.job (.deliverBatch 5), telegramSettings) w
        (execs sampleLib (sampleOracle "t") (.deliverBatch 5) 28)).any fun x =>
          (firstLog 5 x.1).any (fun log => log.newsItemIds == [4, 3]) &&
            x.1.flatMap (fun e => e.stmt.newsIds) == [4, 3, 4, 3]) = true := by
    decide +kernel
  obtain ⟨w, stored, hp⟩ := (Option.any_eq_true _ _).mp run
  obtain ⟨⟨tr, w'⟩, delivery, hp⟩ := (Option.any_eq_true _ _).mp hp
  simp only [Bool.and_eq_true, beq_iff_eq] at hp
  obtain ⟨log, first, ids⟩ := (Option.any_eq_true _ _).mp hp.1
  have reach : Reachable (newsSys sampleLib plainTask) sampleData w := Sys.run_steps stored
  obtain ⟨⟨v, v', items, _, _, _, final, carries⟩, _⟩ := delivered_order sampleLib sampleData_initial reach
    (Sys.execute_execution delivery) (firstLog_said first)
  exact ⟨w, v, v', log, items, tr, reach, final, final.ids.trans (beq_iff_eq.mp ids), hp.2, carries⟩

end NewsNotifier
