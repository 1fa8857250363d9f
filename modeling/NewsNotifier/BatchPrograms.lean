import NewsNotifier.NewsExecution
import NewsNotifier.TitleSimhash

namespace NewsNotifier

open Interleaving Prog

/-- An assignment to a column of a loaded market row; the session writes changed columns only. -/
def assignMarket (market : Market) (change : MarketChange) : Program Unit :=
  if change.apply market = market then return ()
  else await (.assign (.setMarket market.id change))

def marketLockKey (marketId : Uuid) : Int := toSigned64 (marketId &&& (1 <<< 64 - 1))

def finalizeBatchDelivery (marketId batchId : Uuid) : Program (Option Uuid) := do
  let itemIds ← await (.batchItems marketId batchId)
  if itemIds = [] then return none
  else do
    let log ← await (.insertLog marketId batchId (itemIds.map (·.id)))
    return some log.id

def createSoloDelivery (marketId newsItemId : Uuid) : Program Uuid := do
  let batchId ← await .uuid4
  let log ← await (.insertLog marketId batchId [newsItemId])
  return log.id

def resolveBatchCandidate (marketId batchId : Uuid) (canonicalUrlHash outcome : String)
    (newsItemId : Option Uuid) : Program (Option Uuid) := do
  await (.advisoryXactLock (marketLockKey marketId))
  let inserted ← await (.insertCandidate ⟨batchId, canonicalUrlHash, outcome, newsItemId⟩)
  if inserted = false then do
    await .commit
    return none
  else do
    let row ← await (.countResolved batchId)
    match row with
    | none => do
      await .commit
      match newsItemId with
      | none => return none
      | some item => do
        let logId ← createSoloDelivery marketId item
        await .commit
        return some logId
    | some .opened => do
      await .commit
      return none
    | some .closed => do
      let logId ← finalizeBatchDelivery marketId batchId
      await .commit
      return logId

def forceCloseBatch (marketId batchId : Uuid) : Program (Option Uuid) := do
  await (.advisoryXactLock (marketLockKey marketId))
  let row ← await (.closeOpen batchId)
  if row = false then do
    await .commit
    return none
  else do
    let logId ← finalizeBatchDelivery marketId batchId
    await .commit
    return logId

/-- `enqueue_job("deliver_batch", log_id, _job_id=...)`, unless there is nothing to send. -/
def enqueueDelivery : Option Uuid → Program Unit
  | none => return ()
  | some logId => do
    let _ ← await (.enqueueJob (.deliverBatch logId) (.deliverBatch logId) none)
    return ()

end NewsNotifier
