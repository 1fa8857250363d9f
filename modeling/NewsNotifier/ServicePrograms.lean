import NewsNotifier.CandidateProgram
import NewsNotifier.DeliveryProgram
import NewsNotifier.MarketProgram

namespace NewsNotifier

open Interleaving Prog

def overdueThreshold : Int := 5 * 60 * 1000000

def stuckDeliveryThreshold : Int := 5 * 60 * 1000000

def stuckBatchThreshold : Int := 30 * 60 * 1000000

/-- `enqueue_job("process_market", market_id, _job_id=process_market_job_id(market_id, now),
_defer_until=now)`. -/
def enqueuePoll (now : Time) (marketId : Uuid) : Program Unit := do
  let _ ← await (.enqueueJob (.processMarket marketId now) (.processMarket marketId) (some now))
  return ()

def enqueueDueMarkets : Program Unit := do
  let start ← await .utcnow
  let marketIds ← await (.dueMarkets (start - overdueThreshold))
  let now ← await .utcnow
  forEach marketIds (enqueuePoll now)

def enqueueStuckDeliveries : Program Unit := do
  let now ← await .utcnow
  let logIds ← await (.stuckDeliveries (now - stuckDeliveryThreshold))
  forEach logIds fun logId => enqueueDelivery (some logId)

def enqueueStuckBatches : Program Unit := do
  let now ← await .utcnow
  let rows ← await (.stuckBatches (now - stuckBatchThreshold))
  forEach rows fun row => do
    let logId ← forceCloseBatch row.2 row.1
    enqueueDelivery logId

def subscribe (cfg : Settings) (body : MarketSubscribeRequest) : Program Unit := do
  let existing ← await (.marketByExternalId body.marketId)
  match existing with
  | some _ => raise (.httpException 409)
  | none => do
    let now ← await .utcnow
    let secret ← await (.encryptSecret body.callbackSecret)
    -- `body.poll_interval_minutes or default`: 0 is falsy
    let interval := match body.pollIntervalMinutes with
      | none => cfg.defaultPollIntervalMinutes
      | some minutes => if minutes = 0 then cfg.defaultPollIntervalMinutes else minutes
    let id ← await .uuid4
    let inserted ← await (.insertMarket ⟨id, body.marketId, body.marketDescription,
      body.resolutionDate, .active, body.callbackUrl, secret, interval, now, none, none⟩)
    if inserted = false then raise (.integrityError "markets_external_market_id_key")
    else do
      let _ ← await (.getMarket id)
      enqueuePoll now id

def unsubscribe (marketId : String) : Program Unit := do
  let market ← await (.marketByExternalId marketId)
  match market with
  | none => raise (.httpException 404)
  | some market => do
    assignMarket market (.status .paused)
    await .commit
    let _ ← abortMarketJobs market.id
    return ()

/-- `if value is not None: market.column = value`. -/
def assignSome {α : Type} (market : Market) (value : Option α) (change : α → MarketChange) :
    Program Unit :=
  match value with
  | none => return ()
  | some a => assignMarket market (change a)

def assignSecret (market : Market) (value : Option String) : Program Unit :=
  match value with
  | none => return ()
  | some raw => do
    let secret ← await (.encryptSecret raw)
    assignMarket market (.callbackSecretEncrypted secret)

def updateMarket (marketId : String) (body : MarketUpdateRequest) : Program Unit := do
  let market ← await (.marketByExternalId marketId)
  match market with
  | none => raise (.httpException 404)
  | some market => do
    let wasActive := decide (market.status = .active)
    assignSome market body.marketDescription .description
    assignSome market body.resolutionDate .resolutionDate
    assignSome market body.callbackUrl .callbackUrl
    assignSecret market body.callbackSecret
    assignSome market body.status .status
    await .commit
    let refreshed ← await (.getMarket market.id)
    match refreshed with
    | none => raise (.py .external)
    | some refreshed =>
      if body.status.isSome = true ∧ refreshed.status ≠ .active then do
        let _ ← abortMarketJobs market.id
        return ()
      else if wasActive = false ∧ refreshed.status = .active then do
        let now ← await .utcnow
        enqueuePoll now market.id
      else return ()

/-- The batch insert of `process_market` on its own. -/
def openBatch (marketId : Uuid) (expectedCount : Nat) : Program Unit := do
  let _ ← await (.insertBatch marketId expectedCount none)
  await .commit

def jobProgram (lib : PyLib) (cfg : Settings) : Job → Program Unit
  | .processMarket marketId => processMarket lib cfg marketId
  | .processCandidate marketId candidate batchId =>
    processCandidate lib cfg marketId candidate batchId
  | .deliverBatch logId => deliverBatch cfg logId

def taskProgram (lib : PyLib) (cfg : Settings) : Task → Program Unit
  | .job j => jobProgram lib cfg j
  | .subscribe body => subscribe cfg body
  | .unsubscribe marketId => unsubscribe marketId
  | .updateMarket marketId body => updateMarket marketId body
  | .enqueueDueMarkets => enqueueDueMarkets
  | .enqueueStuckDeliveries => enqueueStuckDeliveries
  | .enqueueStuckBatches => enqueueStuckBatches
  | .resolveBatchCandidate marketId batchId h outcome newsItemId => do
    let logId ← resolveBatchCandidate marketId batchId h outcome newsItemId
    enqueueDelivery logId
  | .forceCloseBatch marketId batchId => do
    let logId ← forceCloseBatch marketId batchId
    enqueueDelivery logId
  | .openBatch marketId expectedCount => openBatch marketId expectedCount

end NewsNotifier
