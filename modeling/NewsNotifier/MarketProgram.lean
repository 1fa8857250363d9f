import NewsNotifier.BatchPrograms
import NewsNotifier.SearchMerge
import NewsNotifier.ArticleScoring

namespace NewsNotifier

open Interleaving Prog

def registerMarketJob (marketId : Uuid) (jobId : JobId) : Program Unit := do
  await (.sadd marketId jobId)
  await (.expire marketId)

def abortMarketJobs (marketId : Uuid) : Program Nat := do
  let jobIds ← await (.smembers marketId)
  if jobIds = [] then do
    await (.delete marketId)
    return 0
  else do
    await (.zadd jobIds)
    await (.delete marketId)
    return jobIds.length

/-- A raised exception or the value. -/
def ofExcept {α : Type} : Except PyError α → Program α
  | .error e => raise (.py e)
  | .ok a => ret a

def generateQueriesCall (lib : PyLib) (description : String) : Program (List String) := do
  let raw ← await (.generateJson "query_gen" [description])
  ofExcept (generateQueries lib raw)

def searchAllSources (lib : PyLib) (queries : List String) (perSource : Nat) :
    Program (List Candidate) := do
  let results ← await (.searchSources queries perSource)
  ofExcept (mergeResults lib results)

def selectRelevantCandidates (lib : PyLib) (description : String) (candidates : List Candidate)
    (topK : Int) (minSimilarity : Rat) : Program (List Candidate) :=
  if topK ≤ 0 ∨ candidates = [] then return candidates
  else do
    let vectors ← await (.embedTexts (description :: candidates.map (·.title)))
    match vectors with
    | none => raise (.py .external)
    | some [] => raise (.py .external)
    | some (queryVec :: candidateVecs) =>
      return rankBySimilarity lib queryVec candidateVecs candidates topK minSimilarity

/-- The fan-out of one selected candidate. -/
def dispatchCandidate (marketId : Uuid) (batchId : Option Uuid) (candidate : Candidate) :
    Program Unit := do
  let candidateJobId := JobId.processCandidate marketId candidate.canonicalUrlHash
  let accepted ← await (.enqueueJob candidateJobId (.processCandidate marketId candidate batchId) none)
  registerMarketJob marketId candidateJobId
  match batchId with
  | none => return ()
  | some batch =>
    if accepted then return ()
    else do
      let logId ← resolveBatchCandidate marketId batch candidate.canonicalUrlHash
        "collided_prior_cycle" none
      enqueueDelivery logId

def dispatchCycle (marketId : Uuid) (nextPollAt : Time) (batchId : Option Uuid)
    (selected : List Candidate) : Program Unit := do
  let _ ← await (.enqueueJob (.processMarket marketId nextPollAt) (.processMarket marketId)
    (some nextPollAt))
  forEach selected (dispatchCandidate marketId batchId)

/-- The search and the filters of `process_market`: the selected candidates. -/
def selectCandidates (lib : PyLib) (cfg : Settings) (market : Market) :
    Program (List Candidate) := do
  let queries ← generateQueriesCall lib market.description
  let candidates ← searchAllSources lib queries cfg.searchResultsPerSource
  let existingHashes ← await (.urlHashes market.id)
  let fresh := candidates.filter fun c => !existingHashes.contains c.canonicalUrlHash
  let now ← await .utcnow
  let recent ← ofExcept (filterByRecency lib fresh cfg.candidateMaxAgeDays now)
  let unstale ← ofExcept (filterOlderThanWatermark lib recent market.maxDeliveredPublishedAt)
  selectRelevantCandidates lib market.description unstale cfg.candidatePrefilterTopK
    cfg.candidatePrefilterMinSimilarity

def processMarket (lib : PyLib) (cfg : Settings) (marketId : Uuid) : Program Unit := do
  let market ← await (.getMarket marketId)
  match market with
  | none => return ()
  | some market =>
    if market.status ≠ .active then return ()
    else do
      let selected ← selectCandidates lib cfg market
      let lastPolledAt ← await .utcnow
      let u ← await (.uniform cfg.pollJitterFraction)
      let next := nextPollAt market.resolutionDate lastPolledAt market.pollIntervalMinutes
        cfg.pollJitterFraction u
      assignMarket market (.lastPolledAt lastPolledAt)
      assignMarket market (.nextPollAt next)
      if selected = [] then do
        await .commit
        dispatchCycle market.id next none selected
      else do
        let batch ← await (.insertBatch market.id selected.length market.maxDeliveredPublishedAt)
        await .commit
        dispatchCycle market.id next (some batch.id) selected

end NewsNotifier
