import NewsNotifier.NewsStatements

namespace NewsNotifier

/-- What a delivery log promises to its subscriber. -/
structure LogHead where
  id : Uuid
  marketId : Uuid
  batchId : Uuid
  newsItemIds : List Uuid

/-- The committed rows that batching is about. -/
structure Tables where
  batches : List NewsBatch
  candidates : List (Uuid × String)
  items : List NewsItem
  logs : List LogHead

/-- The purpose of batching: committed rows, the webhooks sent as (key, news ids), who holds which
lock and who drew which id. -/
structure Ledger where
  tables : Tables
  posts : List (Uuid × List Uuid)
  locks : List (Int × JobId)
  drawn : List (Uuid × JobId)

namespace Tables

def itemsOf (t : Tables) (marketId : Uuid) : List NewsItem :=
  t.items.filter (·.marketId = marketId)

def counted (t : Tables) (batchId : Uuid) : Nat :=
  (t.candidates.filter (·.1 = batchId)).length

def HasBatch (t : Tables) (batchId marketId : Uuid) : Prop :=
  ∃ row ∈ t.batches, row.id = batchId ∧ row.marketId = marketId

/-- Every row of the batch is closed, and there is one. -/
def Closed (t : Tables) (batchId : Uuid) : Prop :=
  (∃ row ∈ t.batches, row.id = batchId) ∧ ∀ row ∈ t.batches, row.id = batchId → row.status = .closed

def listed (t : Tables) : List Uuid := t.logs.flatMap (·.newsItemIds)

/-- No row has this id. -/
structure Unused (t : Tables) (u : Uuid) : Prop where
  batch : ∀ row ∈ t.batches, row.id ≠ u
  item : ∀ o ∈ t.items, o.id ≠ u
  log : ∀ log ∈ t.logs, log.id ≠ u
  key : ∀ log ∈ t.logs, log.batchId ≠ u

def addItem (t : Tables) (item : Option NewsItem) : Tables :=
  { t with items := t.items ++ item.toList }

def addCandidate (t : Tables) (batchId : Uuid) (h : String) : Tables :=
  { t with candidates := t.candidates ++ [(batchId, h)] }

def setBatch (t : Tables) (id : Uuid) (n : Nat) (s : BatchStatus) : Tables :=
  { t with batches := KeyedRows.update NewsBatch.id id (NewsBatch.set n s) t.batches }

def addLog (t : Tables) (log : Option LogHead) : Tables :=
  { t with logs := t.logs ++ log.toList }

end Tables

namespace Ledger

def Holds (x : Ledger) (i : JobId) (key : Int) : Prop := (key, i) ∈ x.locks

def Drew (x : Ledger) (i : JobId) (u : Uuid) : Prop := (u, i) ∈ x.drawn

def release (x : Ledger) (i : JobId) (t : Tables) : Ledger :=
  { x with tables := t, locks := x.locks.filter (·.2 ≠ i) }

end Ledger

/-- What a result assumes or asks of the stored items. `novel` compares a stored item with a new
one, `made` is about the new one, and `strict` tells that a resolution names its own item only. -/
structure Policy where
  lockKey : Uuid → Int
  novel : NewsItem → NewsItem → Prop
  made : NewsItem → Prop
  strict : Prop

/-- An item that may be stored by `i`, which holds the lock of its market. -/
structure Storable (P : Policy) (x : Ledger) (i : JobId) (item : NewsItem) : Prop where
  locked : x.Holds i (P.lockKey item.marketId)
  drew : x.Drew i item.id
  unused : x.tables.Unused item.id
  made : P.made item
  novel : ∀ o ∈ x.tables.items, o.marketId = item.marketId → P.novel o item

/-- A resolution of a slot of batch `b` in the critical section of its market. -/
structure Resolves (P : Policy) (x : Ledger) (i : JobId) (m b : Uuid) (item : Option NewsItem) :
    Prop where
  locked : x.Holds i (P.lockKey m)
  store : ∀ o ∈ item, o.marketId = m ∧ o.batchId = some b ∧ Storable P x i o

/-- The delivery that the close of `row` creates: its items in some order, or none. -/
def Gathers (x : Ledger) (i : JobId) (t : Tables) (row : NewsBatch) : Option LogHead → Prop
  | none => ∀ o ∈ t.items, o.marketId = row.marketId → o.batchId ≠ some row.id
  | some log => x.Drew i log.id ∧ t.Unused log.id ∧ log.marketId = row.marketId ∧
      log.batchId = row.id ∧ log.newsItemIds.Perm
        (((t.itemsOf row.marketId).filter (·.batchId = some row.id)).map (·.id))

/-- A log for one item alone, under a key of its own. -/
structure Solo (x : Ledger) (i : JobId) (log : LogHead) (id : Uuid) : Prop where
  drew : x.Drew i log.id
  unused : x.tables.Unused log.id
  drewKey : x.Drew i log.batchId
  unusedKey : x.tables.Unused log.batchId
  ids : log.newsItemIds = [id]

/-- A stored item that no log lists and no close will. -/
structure Stray (t : Tables) (id : Uuid) : Prop where
  item : ∃ o ∈ t.items, o.id = id
  closed : ∀ o ∈ t.items, o.id = id → ∀ b, o.batchId = some b → t.Closed b
  unlisted : id ∉ t.listed

/-- What one commit of `i` does to the tables. -/
inductive Commit (P : Policy) (i : JobId) (x : Ledger) : Tables → Prop
  | nothing : Commit P i x x.tables
  | opened (row : NewsBatch) (drew : x.Drew i row.id) (unused : x.tables.Unused row.id)
      (count : row.resolvedCount = 0) (expected : 0 < row.expectedCount)
      (status : row.status = .opened) :
      Commit P i x { x.tables with batches := x.tables.batches ++ [row] }
  | alone (item : NewsItem) (log : LogHead) (store : Storable P x i item)
      (batch : item.batchId = none) (solo : Solo x i log item.id)
      (apart : log.id ≠ item.id ∧ log.batchId ≠ item.id) :
      Commit P i x ((x.tables.addItem (some item)).addLog (some log))
  | solo (log : LogHead) (id : Uuid) (solo : Solo x i log id)
      (stray : P.strict → x.Drew i id ∧ Stray x.tables id) :
      Commit P i x (x.tables.addLog (some log))
  | repeated (m b : Uuid) (h : String) (item : Option NewsItem) (enter : Resolves P x i m b item)
      (batch : x.tables.HasBatch b m) (seen : (b, h) ∈ x.tables.candidates) :
      Commit P i x (x.tables.addItem item)
  | late (m b : Uuid) (h : String) (item : Option NewsItem) (enter : Resolves P x i m b item)
      (batch : x.tables.HasBatch b m) (new : (b, h) ∉ x.tables.candidates)
      (closed : x.tables.Closed b) :
      Commit P i x ((x.tables.addItem item).addCandidate b h)
  | counted (h : String) (row : NewsBatch) (item : Option NewsItem)
      (enter : Resolves P x i row.marketId row.id item)
      (new : (row.id, h) ∉ x.tables.candidates) (mem : row ∈ x.tables.batches)
      (status : row.status = .opened) (more : row.resolvedCount + 1 < row.expectedCount) :
      Commit P i x (((x.tables.addItem item).addCandidate row.id h).setBatch row.id
        (row.resolvedCount + 1) .opened)
  | closed (h : String) (row : NewsBatch) (item : Option NewsItem) (log : Option LogHead)
      (enter : Resolves P x i row.marketId row.id item)
      (new : (row.id, h) ∉ x.tables.candidates) (mem : row ∈ x.tables.batches)
      (status : row.status = .opened) (last : row.expectedCount ≤ row.resolvedCount + 1)
      (gather : Gathers x i (x.tables.addItem item) row log) :
      Commit P i x ((((x.tables.addItem item).addCandidate row.id h).setBatch row.id
        (row.resolvedCount + 1) .closed).addLog log)
  | forced (row : NewsBatch) (log : Option LogHead) (locked : x.Holds i (P.lockKey row.marketId))
      (mem : row ∈ x.tables.batches) (status : row.status = .opened)
      (gather : Gathers x i x.tables row log) :
      Commit P i x ((x.tables.setBatch row.id row.resolvedCount .closed).addLog log)

/-- One step of a party; `none` is the environment. -/
inductive Act (P : Policy) : Option JobId → Ledger → Ledger → Prop
  | stay (a : Option JobId) (x : Ledger) : Act P a x x
  | lock {i : JobId} {x : Ledger} (key : Int) (free : ∀ e ∈ x.locks, e.1 = key → e.2 = i) :
      Act P (some i) x { x with locks := (key, i) :: x.locks }
  | draw {i : JobId} {x : Ledger} (u : Uuid) (fresh : ∀ e ∈ x.drawn, e.1 ≠ u) :
      Act P (some i) x { x with drawn := (u, i) :: x.drawn }
  | post {i : JobId} {x : Ledger} (p : Uuid × List Uuid)
      (promised : P.strict → ∃ log ∈ x.tables.logs, p = (log.batchId, log.newsItemIds)) :
      Act P (some i) x { x with posts := x.posts ++ [p] }
  | commit {i : JobId} {x : Ledger} {t : Tables} (h : Commit P i x t) :
      Act P (some i) x (x.release i t)

end NewsNotifier
