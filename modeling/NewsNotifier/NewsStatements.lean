import NewsNotifier.InterleavedPrograms
import NewsNotifier.NewsDatabase

namespace NewsNotifier

open Interleaving

/-- The id of an arq job, or of a call that no queue names. -/
inductive JobId where
  | processMarket (marketId : Uuid) (runAt : Time)
  | processCandidate (marketId : Uuid) (canonicalUrlHash : String)
  | deliverBatch (logId : Uuid)
  | call (n : Nat)
  deriving DecidableEq

/-- A queued function call. -/
inductive Job where
  | processMarket (marketId : Uuid)
  | processCandidate (marketId : Uuid) (candidate : Candidate) (batchId : Option Uuid)
  | deliverBatch (logId : Uuid)
  deriving DecidableEq

/-- What a process of the system runs: a job, an API request, a cron job, or one of the two closing
functions and the batch insert on their own. -/
inductive Task where
  | job (j : Job)
  | subscribe (body : MarketSubscribeRequest)
  | unsubscribe (marketId : String)
  | updateMarket (marketId : String) (body : MarketUpdateRequest)
  | enqueueDueMarkets
  | enqueueStuckDeliveries
  | enqueueStuckBatches
  | resolveBatchCandidate (marketId batchId : Uuid) (canonicalUrlHash outcome : String)
      (newsItemId : Option Uuid)
  | forceCloseBatch (marketId batchId : Uuid)
  | openBatch (marketId : Uuid) (expectedCount : Nat)

structure Queued where
  id : JobId
  job : Job
  deferUntil : Option Time
  deriving DecidableEq

/-- A live process; `spawned` tells that it has enqueued a `process_market` job. -/
structure Running where
  id : JobId
  task : Task
  cfg : Settings
  spawned : Bool

structure Redis where
  queue : List Queued
  running : List Running
  marketJobs : List (Uuid × JobId)
  abortJobs : List JobId

/-- arq refuses an enqueue exactly when the id is live. -/
def Redis.live (redis : Redis) (id : JobId) : Bool :=
  redis.queue.any (·.id = id) || redis.running.any (·.id = id)

/-- The answer of a channel: an HTTP status and an error, or an exception. -/
abbrev ChannelAnswer := Except Unit (Option Int × Option String)

/-- A message that left the system, by whom, with its answer. -/
inductive Sent where
  | webhook (sender : JobId) (url secret : String) (payload : WebhookPayload)
      (answer : ChannelAnswer)
  | telegram (sender : JobId) (chatId : Option String) (marketId : String) (news : NewsPayload)
      (answer : ChannelAnswer)

/-- The shared state. `drawn` lists the UUIDs drawn so far with who drew them, `accepted` the
enqueues that arq accepted, and `cycles` the watermark that the cycle of a batch read. No statement
of the source reads these three. -/
structure Data where
  db : Database
  locks : List (Int × JobId)
  redis : Redis
  sent : List Sent
  clock : Time
  drawn : List (Uuid × JobId)
  accepted : List Queued
  cycles : List (Uuid × Option Time)

structure Inserted where
  id : Uuid
  now : Time

/-- The SQL statements and calls at which a coroutine of the system can be interrupted. -/
inductive Stmt where
  | advisoryXactLock (key : Int)
  | commit
  | getMarket (id : Uuid)
  | marketByExternalId (marketId : String)
  | marketStatus (id : Uuid)
  | urlHashes (marketId : Uuid)
  | storedFingerprints (marketId : Uuid)
  | nearestItem (marketId : Uuid) (embedding : Embedding)
  | sourcesIn (domains : List String)
  | batchItems (marketId batchId : Uuid)
  | getLog (id : Uuid)
  | itemsIn (ids : List Uuid)
  | dueMarkets (cutoff : Time)
  | stuckDeliveries (cutoff : Time)
  | stuckBatches (cutoff : Time)
  | insertCandidate (row : NewsBatchCandidate)
  | countResolved (batchId : Uuid)
  | closeOpen (batchId : Uuid)
  | insertItem (row : NewsItem)
  | insertLog (marketId batchId : Uuid) (newsItemIds : List Uuid)
  | insertBatch (marketId : Uuid) (expectedCount : Nat) (watermark : Option Time)
  | insertMarket (row : Market)
  | assign (w : Write)
  | uuid4
  | utcnow
  | uniform (bound : Rat)
  | encryptSecret (raw : String)
  | decryptSecret (token : String)
  | generateJson (name : String) (inputs : List String)
  | searchSources (queries : List String) (perSource : Nat)
  | embedTexts (texts : List String)
  | embedText (text : Json)
  | scrapeUrl (url : String) (timeoutMs concurrency : Nat)
  | sendWebhook (url secret : String) (payload : WebhookPayload)
  | sendTelegram (botToken chatId : Option String) (marketId : String) (news : NewsPayload)
  | enqueueJob (id : JobId) (job : Job) (deferUntil : Option Time)
  | sadd (marketId : Uuid) (id : JobId)
  | expire (marketId : Uuid)
  | smembers (marketId : Uuid)
  | zadd (ids : List JobId)
  | delete (marketId : Uuid)

/-- The type of a statement's answer. -/
abbrev Answer : Stmt → Type
  | .getMarket _ => Option Market
  | .marketByExternalId _ => Option Market
  | .marketStatus _ => Option MarketStatus
  | .urlHashes _ => List String
  | .storedFingerprints _ => List (String × Option Int)
  | .nearestItem _ _ => Option (NewsItem × Option Rat)
  | .sourcesIn _ => List Source
  | .batchItems _ _ => List NewsItem
  | .getLog _ => Option DeliveryLog
  | .itemsIn _ => List NewsItem
  | .dueMarkets _ => List Uuid
  | .stuckDeliveries _ => List Uuid
  | .stuckBatches _ => List (Uuid × Uuid)
  | .insertCandidate _ => Bool
  | .countResolved _ => Option BatchStatus
  | .closeOpen _ => Bool
  | .insertItem _ => Option Inserted
  | .insertLog _ _ _ => Inserted
  | .insertBatch _ _ _ => Inserted
  | .insertMarket _ => Bool
  | .uuid4 => Uuid
  | .utcnow => Time
  | .uniform _ => Rat
  | .encryptSecret _ => String
  | .decryptSecret _ => Option String
  | .generateJson _ _ => Option Json
  | .searchSources _ _ => List (Option (List SearchItem))
  | .embedTexts _ => Option (List Embedding)
  | .embedText _ => Option Embedding
  | .scrapeUrl _ _ _ => Except Unit (Option ScrapeResult)
  | .sendWebhook _ _ _ => ChannelAnswer
  | .sendTelegram _ _ _ _ => ChannelAnswer
  | .enqueueJob _ _ _ => Bool
  | .smembers _ => List JobId
  | _ => Unit

abbrev Program (α : Type) := Prog Stmt Answer Raised α

/-- One awaited statement. -/
def await (s : Stmt) : Program (Answer s) := .stmt s .ret

@[simp] theorem await_eq (s : Stmt) : await s = .stmt s .ret := rfl

def nullsLastLe : Option Rat → Option Rat → Bool
  | _, none => true
  | none, some _ => false
  | some a, some b => a ≤ b

/-- `ORDER BY embedding <=> e LIMIT 1`: a nearest row, rows without an embedding last. -/
def isNearest (lib : PyLib) (items : List NewsItem) (e : Embedding) :
    Option (NewsItem × Option Rat) → Bool
  | none => items.isEmpty
  | some (item, distance) =>
    let distanceTo (o : NewsItem) := o.embedding.map (lib.cosineDistance · e)
    decide (item ∈ items) && decide (distance = distanceTo item) &&
      items.all fun o => nullsLastLe distance (distanceTo o)

/-- `ORDER BY published_at DESC NULLS LAST, discovered_at DESC`. -/
def orderedBefore (a b : NewsItem) : Bool :=
  match a.publishedAt, b.publishedAt with
  | some x, some y => y < x || (x = y && b.discoveredAt ≤ a.discoveredAt)
  | some _, none => true
  | none, some _ => false
  | none, none => b.discoveredAt ≤ a.discoveredAt

def isOrdered : List NewsItem → Bool
  | [] => true
  | item :: items => items.all (orderedBefore item) && isOrdered items

def Database.itemsOf (db : Database) (marketId : Uuid) : List NewsItem :=
  db.items.filter (·.marketId = marketId)

def Database.market (db : Database) (id : Uuid) : Option Market :=
  db.markets.find? (·.id = id)

def Database.isActive (db : Database) (id : Uuid) : Bool :=
  db.markets.any fun m => m.id = id && m.status = .active

def Data.isFresh (d : Data) (x : Uuid) : Bool := d.drawn.all (·.1 ≠ x)

def Data.draw (d : Data) (x : Uuid) (i : JobId) : Data := { d with drawn := (x, i) :: d.drawn }

/-- Every lock of `i` is dropped, as at the end of its transaction. -/
def Data.release (d : Data) (i : JobId) : Data := { d with locks := d.locks.filter (·.2 ≠ i) }

/-- A read: the answer `r` must be the row set `x`, in the given sense. -/
def answered (ok : Bool) (l : List Write) (d : Data) : Option (List Write × Data) :=
  if ok then some (l, d) else none

def Job.isProcessMarket : Job → Bool
  | .processMarket _ => true
  | _ => false

def Data.enqueue (d : Data) (i : JobId) (q : Queued) : Data :=
  let mark (e : Running) :=
    if e.id = i ∧ q.job.isProcessMarket then { e with spawned := true } else e
  { d with
    redis := { d.redis with
      queue := d.redis.queue ++ [q], running := d.redis.running.map mark }
    accepted := q :: d.accepted }

end NewsNotifier
