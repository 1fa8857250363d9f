import NewsNotifier.BatchPrograms
import NewsNotifier.SearchMerge
import NewsNotifier.ArticleScoring

namespace NewsNotifier

open Interleaving Prog

/-- The closure `resolve` of `process_candidate`. -/
def resolve (marketId : Uuid) (candidate : Candidate) (batchId : Option Uuid) (outcome : String)
    (newsItemId : Option Uuid) : Program Unit :=
  match batchId with
  | none =>
    match newsItemId with
    | none => await .commit
    | some item => do
      let logId ← createSoloDelivery marketId item
      await .commit
      enqueueDelivery (some logId)
  | some batch => do
    let logId ← resolveBatchCandidate marketId batch candidate.canonicalUrlHash outcome newsItemId
    enqueueDelivery logId

def extractAndScore (lib : PyLib) (description text domain : String) :
    Program (Except PyError (Option Extracted)) :=
  if pyStrip lib text = "" then return .ok none
  else do
    let raw ← await (.generateJson "extraction" [description, domain, text])
    return (scoreAnswer lib text raw).map some

-- unification would otherwise run the comparison of the stripped text
attribute [irreducible] extractAndScore

/-- `embed_text(extracted["summary"])` inside its `try`; `none` is the caught exception. -/
def embedSummary (summary : Json) : Program (Option Embedding) :=
  match summary with
  | .str s => await (.embedText (.str (String.ofList (s.toList.take 4000))))
  | .arr xs => await (.embedText (.arr (xs.take 4000)))
  | _ => return none

/-- The query of `compute_credibility`, skipped without a candidate domain. -/
def sourceRows (domain : String) : Program (List Source) :=
  if domainCandidates domain = [] then return []
  else await (.sourcesIn (domainCandidates domain))

def computeCredibility (domain : String) (llmSignal : Json) : Program Rat := do
  let rows ← sourceRows domain
  match llmSignal.number with
  | none => raise (.py .typeError)
  | some signal => return credibilityOf domain rows signal

def dupTitle (cfg : Settings) (titleHash : Nat) (stored : List (String × Option Int)) : Bool :=
  stored.any fun row =>
    match row.2 with
    | none => false
    | some s => hammingDistance titleHash (fromSigned64 s) ≤ cfg.simhashHammingThreshold

/-- `find_similar` after its query. -/
def isSimilar (cfg : Settings) (row : Option (NewsItem × Option Rat)) : Except PyError Bool :=
  match row with
  | none => .ok false
  | some (_, none) => .error .typeError
  | some (_, some distance) => .ok (cfg.vectorDedupThreshold ≤ 1 - distance)

/-- The date of a row: that of the search, or else that of the page, which is read only then. -/
def itemDate (lib : PyLib) (search page : RawDate) : Except PyError (Option Time) := do
  match ← parsePublishedAt lib search with
  | some publishedAt => .ok (some publishedAt)
  | none => parsePublishedAt lib page

theorem itemDate_ok {lib : PyLib} {search page : RawDate} {date : Option Time}
    (h : itemDate lib search page = .ok date) : date = (readDate lib search).or (readDate lib page) := by
  unfold itemDate at h
  unfold readDate
  cases first : parsePublishedAt lib search with
  | error e =>
    rw [first] at h
    cases h
  | ok known =>
    cases known with
    | some t =>
      rw [first] at h
      exact (Except.ok.inj h).symm
    | none =>
      rw [first] at h
      have second : parsePublishedAt lib page = .ok date := h
      rw [second]
      rfl

/-- The driver and the database take these values of a row: its texts, its domain in a `String(255)`, and its date,
which is sent in UTC. -/
def storable (lib : PyLib) (domain : String) (texts : List String) (date : Option Time) : Bool :=
  (domain :: texts).all lib.storesText && fitsColumn 255 domain && date.all fun t => datetimeMin ≤ t && t ≤ datetimeMax

/-- The end of `process_candidate`: scoring, the row, and its resolution. -/
def storeItem (lib : PyLib) (marketId : Uuid) (candidate : Candidate) (batchId : Option Uuid)
    (scraped : ScrapeResult) (finalHash domain title : String) (extracted : Extracted)
    (embedding : Embedding) : Program Unit := do
  let credibility ← computeCredibility domain (extracted.get "credibility_signal")
  match (extracted.get "relevance_score").number with
  | none => raise (.py .typeError)
  | some relevance =>
    match itemDate lib candidate.publishedAt scraped.publishedAt with
    | .error e => raise (.py e)
    | .ok publishedAt =>
      match extracted.get "summary" with
      | .str summary =>
        if storable lib domain (scraped.finalUrl :: title :: summary :: extracted.proofs) publishedAt then do
          let row ← await (.insertItem
            { id := 0, marketId, batchId, url := scraped.finalUrl, canonicalUrlHash := finalHash
              titleSimhash := some (toSigned64 (simhash lib title)), title, summary
              proofs := extracted.proofs, sourceDomain := domain, publishedAt, discoveredAt := 0
              credibilityScore := credibility, relevanceScore := clamp01 relevance
              impactHint := impactHintOf (extracted.get "impact_hint"), embedding := some embedding
              delivered := false })
          match row with
          | none => raise (.integrityError "uq_news_market_url")
          | some new => resolve marketId candidate batchId "stored" (some new.id)
        else raise .dataError
      -- the driver refuses any other value for a text column
      | _ => raise .dataError

/-- The critical section of `process_candidate`: dedup-check-and-insert under the market lock. -/
def dedupAndStore (lib : PyLib) (cfg : Settings) (marketId : Uuid) (candidate : Candidate)
    (batchId : Option Uuid) (scraped : ScrapeResult) (finalHash domain title : String)
    (extracted : Extracted) (embedding : Embedding) : Program Unit := do
  await (.advisoryXactLock (marketLockKey marketId))
  let currentStatus ← await (.marketStatus marketId)
  if currentStatus ≠ some .active then
    resolve marketId candidate batchId "market_inactive" none
  else do
    let stored ← await (.storedFingerprints marketId)
    if stored.any (·.1 = finalHash) then resolve marketId candidate batchId "dup_url" none
    else if dupTitle cfg (simhash lib title) stored then
      resolve marketId candidate batchId "dup_title" none
    else do
      let row ← await (.nearestItem marketId embedding)
      match isSimilar cfg row with
      | .error e => raise (.py e)
      | .ok true => resolve marketId candidate batchId "dup_semantic" none
      | .ok false =>
        storeItem lib marketId candidate batchId scraped finalHash domain title extracted embedding

/-- `process_candidate` from a successful scrape on. -/
def extractAndStore (lib : PyLib) (cfg : Settings) (market : Market) (candidate : Candidate)
    (batchId : Option Uuid) (scraped : ScrapeResult) : Program Unit :=
  match urlHash lib scraped.finalUrl, domainOf lib scraped.finalUrl with
  | .error e, _ => raise (.py e)
  | .ok _, .error e => raise (.py e)
  | .ok finalHash, .ok domain => do
    let extraction ← extractAndScore lib market.description scraped.text domain
    match extraction with
    | .error _ => resolve market.id candidate batchId "extraction_error" none
    | .ok none => resolve market.id candidate batchId "not_relevant" none
    | .ok (some extracted) =>
      if extracted.isRelevant = false then resolve market.id candidate batchId "not_relevant" none
      else
        match extracted.get "title" with
        | .str title => do
          let embedding ← embedSummary (extracted.get "summary")
          match embedding with
          | none => resolve market.id candidate batchId "embed_error" none
          | some embedding =>
            dedupAndStore lib cfg market.id candidate batchId scraped finalHash domain title extracted
              embedding
        -- `text.lower()` in `_tokenize`
        | _ => raise (.py .attributeError)

def failureDomain (lib : PyLib) (candidate : Candidate) (scrapeResult : Option ScrapeResult) :
    Except PyError String :=
  match scrapeResult with
  | none => domainOf lib candidate.url
  | some r => if r.finalUrl = "" then domainOf lib candidate.url else domainOf lib r.finalUrl

def scrapeFailed (lib : PyLib) (market : Market) (candidate : Candidate) (batchId : Option Uuid)
    (scrapeResult : Option ScrapeResult) : Program Unit :=
  match failureDomain lib candidate scrapeResult with
  | .error e => raise (.py e)
  | .ok domain =>
    let detail := scrapeResult.bind (·.error)
    if storable lib domain (candidate.url :: detail.toList) none then do
      await (.assign (.insertFailure ⟨market.id, candidate.url, domain, "scrape_failed", detail⟩))
      resolve market.id candidate batchId "scrape_failed" none
    else raise .dataError

def processCandidate (lib : PyLib) (cfg : Settings) (marketId : Uuid) (candidate : Candidate)
    (batchId : Option Uuid) : Program Unit := do
  let market ← await (.getMarket marketId)
  match market with
  | none => resolve marketId candidate batchId "market_inactive" none
  | some market =>
    if market.status ≠ .active then resolve marketId candidate batchId "market_inactive" none
    else do
      let scraped ← await (.scrapeUrl candidate.url cfg.playwrightTimeoutMs cfg.scrapeConcurrency)
      match scraped with
      | .error _ => raise (.py .external)
      | .ok none => scrapeFailed lib market candidate batchId none
      | .ok (some scrapeResult) =>
        if scrapeResult.success = false then
          scrapeFailed lib market candidate batchId (some scrapeResult)
        else extractAndStore lib cfg market candidate batchId scrapeResult

end NewsNotifier
