import NewsNotifier.NewsRows
import NewsNotifier.KeyedRows

namespace NewsNotifier

open KeyedRows

structure Database where
  markets : List Market
  batches : List NewsBatch
  items : List NewsItem
  candidates : List NewsBatchCandidate
  logs : List DeliveryLog
  failures : List ScrapeFailure
  sources : List Source

/-- An assignment to a column of a market row. -/
inductive MarketChange where
  | description (s : String)
  | resolutionDate (t : Time)
  | callbackUrl (s : String)
  | callbackSecretEncrypted (s : String)
  | status (s : MarketStatus)
  | lastPolledAt (t : Time)
  | nextPollAt (t : Time)
  | maxDeliveredPublishedAt (t : Time)

def MarketChange.apply : MarketChange → Market → Market
  | description s, m => { m with description := s }
  | resolutionDate t, m => { m with resolutionDate := some t }
  | callbackUrl s, m => { m with callbackUrl := s }
  | callbackSecretEncrypted s, m => { m with callbackSecretEncrypted := s }
  | status s, m => { m with status := s }
  | lastPolledAt t, m => { m with lastPolledAt := some t }
  | nextPollAt t, m => { m with nextPollAt := t }
  | maxDeliveredPublishedAt t, m => { m with maxDeliveredPublishedAt := some t }

/-- An assignment to a column of a delivery log row. -/
inductive LogChange where
  | attempt (n : Nat)
  | status (s : DeliveryStatus)
  | statusCode (c : Option Int)
  | error (e : Option String)
  | webhookDelivered
  | telegramSentNewsItemIds (ids : List Uuid)
  | deliveredAt (t : Time)

def LogChange.apply : LogChange → DeliveryLog → DeliveryLog
  | attempt n, log => { log with attempt := n }
  | status s, log => { log with status := s }
  | statusCode c, log => { log with statusCode := c }
  | error e, log => { log with error := e }
  | webhookDelivered, log => { log with webhookDelivered := true }
  | telegramSentNewsItemIds ids, log => { log with telegramSentNewsItemIds := ids }
  | deliveredAt t, log => { log with deliveredAt := some t }

/-- What a session has flushed or assigned and not yet committed. -/
inductive Write where
  | insertMarket (row : Market)
  | insertBatch (row : NewsBatch)
  | insertItem (row : NewsItem)
  | insertCandidate (row : NewsBatchCandidate)
  | insertLog (row : DeliveryLog)
  | insertFailure (row : ScrapeFailure)
  | setBatch (id : Uuid) (resolvedCount : Nat) (status : BatchStatus)
  | setMarket (id : Uuid) (change : MarketChange)
  | setLog (id : Uuid) (change : LogChange)
  | setDelivered (id : Uuid)

def NewsBatch.set (resolvedCount : Nat) (status : BatchStatus) (row : NewsBatch) : NewsBatch :=
  { row with resolvedCount := resolvedCount, status := status }

def NewsItem.deliver (item : NewsItem) : NewsItem := { item with delivered := true }

def Write.apply : Write → Database → Database
  | insertMarket row, db => { db with markets := db.markets ++ [row] }
  | insertBatch row, db => { db with batches := db.batches ++ [row] }
  | insertItem row, db => { db with items := db.items ++ [row] }
  | insertCandidate row, db => { db with candidates := db.candidates ++ [row] }
  | insertLog row, db => { db with logs := db.logs ++ [row] }
  | insertFailure row, db => { db with failures := db.failures ++ [row] }
  | setBatch id n s, db => { db with batches := update NewsBatch.id id (NewsBatch.set n s) db.batches }
  | setMarket id c, db => { db with markets := update Market.id id c.apply db.markets }
  | setLog id c, db => { db with logs := update DeliveryLog.id id c.apply db.logs }
  | setDelivered id, db => { db with items := update NewsItem.id id NewsItem.deliver db.items }

/-- The database as a session sees it: committed rows and its own writes over them. -/
def Database.after (db : Database) (writes : List Write) : Database :=
  writes.foldl (fun db w => w.apply db) db

@[simp] theorem Database.after_nil (db : Database) : db.after [] = db := rfl

@[simp] theorem Database.after_append (db : Database) (ws vs : List Write) :
    db.after (ws ++ vs) = (db.after ws).after vs := List.foldl_append

@[simp] theorem Database.after_cons (db : Database) (w : Write) (ws : List Write) :
    db.after (w :: ws) = (w.apply db).after ws := rfl

end NewsNotifier
