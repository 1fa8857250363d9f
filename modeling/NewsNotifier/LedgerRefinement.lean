import NewsNotifier.NewsSystem
import NewsNotifier.TaskStatements
import NewsNotifier.LedgerFrame

namespace NewsNotifier

open Interleaving KeyedRows

theorem NewsItem.deliver_deliver (item : NewsItem) : item.deliver.deliver = item.deliver := rfl

def DeliveryLog.head (log : DeliveryLog) : LogHead :=
  ⟨log.id, log.marketId, log.batchId, log.newsItemIds⟩

/-- The ledger's view of the committed rows; `delivered` is not part of it. -/
def Database.tables (db : Database) : Tables where
  batches := db.batches
  candidates := db.candidates.map fun c => (c.batchId, c.canonicalUrlHash)
  items := db.items.map NewsItem.deliver
  logs := db.logs.map DeliveryLog.head

def Sent.post : Sent → Option (Uuid × List Uuid)
  | .webhook _ _ _ payload _ => some (payload.batchId, payload.news.map (·.newsId))
  | .telegram _ _ _ _ _ => none

def Data.ledger (d : Data) : Ledger :=
  ⟨d.db.tables, d.sent.filterMap Sent.post, d.locks, d.drawn⟩

/-- What the staged writes `l` do to the tables. -/
def Effect (l : List Write) (f : Tables → Tables) : Prop :=
  ∀ db : Database, (db.after l).tables = f db.tables

namespace Effect

variable {l : List Write} {f : Tables → Tables}

theorem nil : Effect [] id := fun _ => rfl

theorem addNone : Effect [] (·.addItem none) := fun db => (Tables.addItem_none db.tables).symm

theorem append (h : Effect l f) {w : Write} (g : Tables → Tables)
    (hw : ∀ db : Database, (w.apply db).tables = g db.tables) :
    Effect (l ++ [w]) fun t => g (f t) := by
  intro db
  rw [Database.after_append, Database.after_cons, Database.after_nil, hw, h db]

theorem insertItem (h : Effect l f) (o : NewsItem) :
    Effect (l ++ [.insertItem o]) fun t => (f t).addItem (some o.deliver) :=
  h.append (·.addItem (some o.deliver)) fun db => by
    simp [Write.apply, Database.tables, Tables.addItem]

theorem insertCandidate (h : Effect l f) (row : NewsBatchCandidate) :
    Effect (l ++ [.insertCandidate row]) fun t =>
      (f t).addCandidate row.batchId row.canonicalUrlHash :=
  h.append (·.addCandidate row.batchId row.canonicalUrlHash) fun db => by
    simp [Write.apply, Database.tables, Tables.addCandidate]

theorem insertLog (h : Effect l f) (log : DeliveryLog) :
    Effect (l ++ [.insertLog log]) fun t => (f t).addLog (some log.head) :=
  h.append (·.addLog (some log.head)) fun db => by
    simp [Write.apply, Database.tables, Tables.addLog]

theorem setBatch (h : Effect l f) (b : Uuid) (n : Nat) (s : BatchStatus) :
    Effect (l ++ [.setBatch b n s]) fun t => (f t).setBatch b n s :=
  h.append (·.setBatch b n s) fun _ => rfl

theorem insertBatch (h : Effect l f) (row : NewsBatch) :
    Effect (l ++ [.insertBatch row]) fun t => { f t with batches := (f t).batches ++ [row] } :=
  h.append (fun t => { t with batches := t.batches ++ [row] }) fun _ => rfl

end Effect

/-- The writes that the ledger does not see. -/
def Write.quiet : Write → Bool
  | .insertMarket _ => true
  | .insertFailure _ => true
  | .setMarket _ _ => true
  | .setLog _ _ => true
  | .setDelivered _ => true
  | _ => false

theorem LogChange.head_apply (c : LogChange) (log : DeliveryLog) : (c.apply log).head = log.head := by
  cases c <;> rfl

theorem Write.quiet_tables {w : Write} (h : w.quiet = true) (db : Database) :
    (w.apply db).tables = db.tables := by
  cases w with
  | insertMarket row => rfl
  | insertFailure row => rfl
  | setMarket id c => rfl
  | setLog id c =>
    simp only [Write.apply, Database.tables]
    rw [map_update (LogChange.head_apply c)]
  | setDelivered id =>
    simp only [Write.apply, Database.tables]
    rw [map_update NewsItem.deliver_deliver]
  | insertBatch | insertItem | insertCandidate | insertLog | setBatch => simp [Write.quiet] at h

theorem Effect.quiet {l : List Write} {f : Tables → Tables} (h : Effect l f) {w : Write}
    (hw : w.quiet = true) : Effect (l ++ [w]) f :=
  h.append id (Write.quiet_tables hw)

/-- The statements that neither change the ledger nor stage a write. -/
def Stmt.quiet : Stmt → Bool
  | .advisoryXactLock _ => false
  | .commit => false
  | .insertCandidate _ => false
  | .countResolved _ => false
  | .closeOpen _ => false
  | .insertItem _ => false
  | .insertLog _ _ _ => false
  | .insertBatch _ _ _ => false
  | .insertMarket _ => false
  | .assign _ => false
  | .uuid4 => false
  | .sendWebhook _ _ _ => false
  | _ => true

theorem Stmt.reading.quiet {m : Uuid} {s : Stmt} (h : s.reading m) : s.quiet = true := by
  cases s <;> first | rfl | exact h.elim

theorem exec_quiet {lib : PyLib} {i : JobId} {s : Stmt} {r : Answer s} {l l' : List Write}
    {d d' : Data} (hq : s.quiet = true) (h : exec lib i s r l d = some (l', d')) :
    l' = l ∧ d'.ledger = d.ledger := by
  cases s with
  | enqueueJob id job deferUntil =>
    simp only [exec] at h
    split at h
    next =>
      obtain ⟨-, rfl, rfl⟩ := answered_eq h
      exact ⟨rfl, rfl⟩
    next =>
      split at h
      next =>
        obtain ⟨rfl, rfl⟩ := Prod.mk.inj (Option.some.inj h)
        exact ⟨rfl, rfl⟩
      next => simp at h
  | sendTelegram botToken chatId marketId news =>
    obtain ⟨rfl, rfl⟩ := Prod.mk.inj (Option.some.inj h)
    exact ⟨rfl, by simp [Data.ledger, Sent.post]⟩
  | encryptSecret | decryptSecret | generateJson | searchSources | embedText | scrapeUrl | sadd |
      expire | zadd | delete =>
    obtain ⟨rfl, rfl⟩ := Prod.mk.inj (Option.some.inj h)
    exact ⟨rfl, rfl⟩
  | advisoryXactLock | commit | insertCandidate | countResolved | closeOpen | insertItem | insertLog |
      insertBatch | insertMarket | assign | uuid4 | sendWebhook => simp [Stmt.quiet] at hq
  | _ =>
    obtain ⟨-, rfl, rfl⟩ := answered_eq h
    exact ⟨rfl, rfl⟩

def Write.candidate : Write → Option (Uuid × String)
  | .insertCandidate row => some (row.batchId, row.canonicalUrlHash)
  | _ => none

theorem after_candidates (db : Database) (l : List Write) :
    (db.after l).tables.candidates = db.tables.candidates ++ l.filterMap Write.candidate := by
  induction l generalizing db with
  | nil => simp
  | cons w l ih =>
    rw [Database.after_cons, ih]
    cases w with
    | insertCandidate row => simp [Write.candidate, Write.apply, Database.tables]
    | _ => rfl

def Write.log : Write → Option LogHead
  | .insertLog row => some row.head
  | _ => none

theorem after_logs (db : Database) (l : List Write) :
    (db.after l).tables.logs = db.tables.logs ++ l.filterMap Write.log := by
  induction l generalizing db with
  | nil => simp
  | cons w l ih =>
    rw [Database.after_cons, ih]
    cases w with
    | insertLog row => simp [Write.log, Write.apply, Database.tables]
    | setLog id c =>
      simp only [Write.apply, Database.tables, List.filterMap_cons, Write.log]
      rw [map_update (LogChange.head_apply c)]
    | _ => rfl

end NewsNotifier
