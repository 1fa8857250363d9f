import NewsNotifier.BatchPrograms

namespace NewsNotifier

open Interleaving Prog

def newsPayload (item : NewsItem) : NewsPayload where
  newsId := item.id
  title := item.title
  summary := item.summary
  url := item.url
  sourceDomain := item.sourceDomain
  publishedAt := item.publishedAt
  credibilityScore := item.credibilityScore
  relevanceScore := item.relevanceScore
  impactHint := item.impactHint
  proofs := item.proofs

/-- `error is not None or status_code is None or not 200 <= status_code < 300`. -/
def sendFailed (statusCode : Option Int) (error : Option String) : Bool :=
  error.isSome ||
    match statusCode with
    | none => true
    | some code => !(200 ≤ code && code < 300)

def failureText (channel : String) (statusCode : Option Int) (error : Option String) : String :=
  let status := match statusCode with
    | none => "None"
    | some code => toString code
  let text := match error with
    | none => "HTTP " ++ status
    | some e => if e = "" then "HTTP " ++ status else e
  channel ++ ": " ++ text

def runtimeText (channel : String) (statusCode : Option Int) (error : Option String) : String :=
  let status := match statusCode with
    | none => "None"
    | some code => toString code
  channel ++ " delivery failed (status=" ++ status ++ ", error=" ++ error.getD "None" ++ ")"

/-- The closure `record_failure`, and what its callers do with its answer. -/
def recordFailure (cfg : Settings) (log : DeliveryLog) (channel : String) (statusCode : Option Int)
    (error : Option String) : Program Unit := do
  await (.assign (.setLog log.id (.statusCode statusCode)))
  await (.assign (.setLog log.id (.error (some (failureText channel statusCode error)))))
  if cfg.maxDeliveryAttempts ≤ log.attempt then do
    await (.assign (.setLog log.id (.status .deadLetter)))
    await .commit
  else do
    await (.assign (.setLog log.id (.status .failed)))
    await .commit
    raise (.runtimeError (runtimeText channel statusCode error))

/-- The newest date among the items, as `max(..., default=None)`. -/
def newestOf : List NewsItem → Option Time
  | [] => none
  | item :: items =>
    match item.publishedAt, newestOf items with
    | none, newest => newest
    | some t, none => some t
    | some t, some newest => some (max t newest)

def advancesWatermark (market : Market) (newest : Time) : Bool :=
  match market.maxDeliveredPublishedAt with
  | none => true
  | some w => w < newest

/-- The end of `deliver_batch`: success, delivered items and watermark in one commit. -/
def finishDelivery (market : Market) (log : DeliveryLog) (items : List NewsItem) :
    Program Unit := do
  await (.assign (.setLog log.id (.status .success)))
  await (.assign (.setLog log.id (.error none)))
  let now ← await .utcnow
  await (.assign (.setLog log.id (.deliveredAt now)))
  forEach items fun item => await (.assign (.setDelivered item.id))
  match newestOf items with
  | none => await .commit
  | some newest =>
    if advancesWatermark market newest then do
      assignMarket market (.maxDeliveredPublishedAt newest)
      await .commit
    else await .commit

/-- The Telegram loop; `sent` is `log.telegram_sent_news_item_ids` as the session has it. -/
def telegramLoop (cfg : Settings) (market : Market) (log : DeliveryLog) (items : List NewsItem) :
    List NewsItem → List Uuid → Program Unit
  | [], _ => finishDelivery market log items
  | item :: rest, sent =>
    if sent.contains item.id then telegramLoop cfg market log items rest sent
    else do
      let answer ← await (.sendTelegram cfg.telegramBotToken cfg.telegramChatId
        market.externalMarketId (newsPayload item))
      match answer with
      | .error _ => raise (.py .external)
      | .ok (statusCode, error) =>
        if sendFailed statusCode error then recordFailure cfg log "Telegram" statusCode error
        else do
          await (.assign (.setLog log.id (.telegramSentNewsItemIds (sent ++ [item.id]))))
          await (.assign (.setLog log.id (.statusCode statusCode)))
          await (.assign (.setLog log.id (.error none)))
          await .commit
          telegramLoop cfg market log items rest (sent ++ [item.id])

/-- `deliver_batch` after the webhook. -/
def deliverTelegram (cfg : Settings) (market : Market) (log : DeliveryLog)
    (items : List NewsItem) : Program Unit :=
  if cfg.telegramEnabled then
    telegramLoop cfg market log items items log.telegramSentNewsItemIds
  else finishDelivery market log items

def deliverWebhook (cfg : Settings) (market : Market) (log : DeliveryLog) (items : List NewsItem)
    (payload : WebhookPayload) : Program Unit := do
  let secret ← await (.decryptSecret market.callbackSecretEncrypted)
  match secret with
  | none => raise (.py .external)
  | some secret => do
    let answer ← await (.sendWebhook market.callbackUrl secret payload)
    match answer with
    | .error _ => raise (.py .external)
    | .ok (statusCode, error) =>
      if sendFailed statusCode error then recordFailure cfg log "Webhook" statusCode error
      else do
        await (.assign (.setLog log.id .webhookDelivered))
        await (.assign (.setLog log.id (.statusCode statusCode)))
        await (.assign (.setLog log.id (.error none)))
        await .commit
        deliverTelegram cfg market log items

/-- `items` of `deliver_batch`: the fetched rows in the order of the log's ids. -/
def inOrder (ids : List Uuid) (fetched : List NewsItem) : List NewsItem :=
  ids.filterMap fun id => fetched.find? (·.id = id)

def deliverBatch (cfg : Settings) (logId : Uuid) : Program Unit := do
  let log ← await (.getLog logId)
  match log with
  | none => return ()
  | some log =>
    if log.status = .success then return ()
    else do
      let market ← await (.getMarket log.marketId)
      match market with
      | none => return ()
      | some market =>
        if market.status ≠ .active then return ()
        else do
          let fetched ← await (.itemsIn log.newsItemIds)
          let items := inOrder log.newsItemIds fetched
          let now ← await .utcnow
          let payload : WebhookPayload :=
            ⟨market.externalMarketId, log.batchId, now, items.map newsPayload⟩
          await (.assign (.setLog log.id (.attempt (log.attempt + 1))))
          let log := { log with attempt := log.attempt + 1 }
          if log.webhookDelivered then deliverTelegram cfg market log items
          else deliverWebhook cfg market log items payload

end NewsNotifier
