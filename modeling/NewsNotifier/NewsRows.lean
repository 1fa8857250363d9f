import NewsNotifier.PyValues

namespace NewsNotifier

inductive MarketStatus where
  | active
  | paused
  | resolved
  deriving DecidableEq

inductive ReliabilityTier where
  | tier1Official
  | tier2MajorMedia
  | tier3Aggregator
  | tier4SocialBlog
  | unknown
  deriving DecidableEq

inductive ImpactHint where
  | supportsYes
  | supportsNo
  | neutral
  | ambiguous
  deriving DecidableEq

inductive DeliveryStatus where
  | pending
  | success
  | failed
  | deadLetter
  deriving DecidableEq

/-- `opened` is the source's `open`, which Lean reserves. -/
inductive BatchStatus where
  | opened
  | closed
  deriving DecidableEq

structure Market where
  id : Uuid
  externalMarketId : String
  description : String
  resolutionDate : Option Time
  status : MarketStatus
  callbackUrl : String
  callbackSecretEncrypted : String
  pollIntervalMinutes : Int
  nextPollAt : Time
  lastPolledAt : Option Time
  maxDeliveredPublishedAt : Option Time
  deriving DecidableEq

structure NewsBatch where
  id : Uuid
  marketId : Uuid
  expectedCount : Nat
  resolvedCount : Nat
  status : BatchStatus
  createdAt : Time
  deriving DecidableEq

structure NewsItem where
  id : Uuid
  marketId : Uuid
  batchId : Option Uuid
  url : String
  canonicalUrlHash : String
  titleSimhash : Option Int
  title : String
  summary : String
  proofs : List String
  sourceDomain : String
  publishedAt : Option Time
  discoveredAt : Time
  credibilityScore : Rat
  relevanceScore : Rat
  impactHint : ImpactHint
  embedding : Option Embedding
  delivered : Bool
  deriving DecidableEq

structure NewsBatchCandidate where
  batchId : Uuid
  canonicalUrlHash : String
  outcome : String
  newsItemId : Option Uuid
  deriving DecidableEq

structure Source where
  domain : String
  reliabilityTier : ReliabilityTier
  deriving DecidableEq

structure ScrapeFailure where
  marketId : Uuid
  url : String
  sourceDomain : String
  reason : String
  detail : Option String
  deriving DecidableEq

/-- The item ids are stored as strings; `str` and `uuid.UUID` are inverse on them. -/
structure DeliveryLog where
  id : Uuid
  marketId : Uuid
  batchId : Uuid
  newsItemIds : List Uuid
  attempt : Nat
  status : DeliveryStatus
  statusCode : Option Int
  error : Option String
  webhookDelivered : Bool
  telegramSentNewsItemIds : List Uuid
  createdAt : Time
  deliveredAt : Option Time
  deriving DecidableEq

structure Settings where
  defaultPollIntervalMinutes : Int
  pollJitterFraction : Rat
  vectorDedupThreshold : Rat
  simhashHammingThreshold : Int
  maxDeliveryAttempts : Nat
  telegramBotToken : Option String
  telegramChatId : Option String
  playwrightTimeoutMs : Nat
  scrapeConcurrency : Nat
  searchResultsPerSource : Nat
  candidatePrefilterTopK : Int
  candidatePrefilterMinSimilarity : Rat
  candidateMaxAgeDays : Int

def Settings.telegramEnabled (cfg : Settings) : Bool :=
  cfg.telegramBotToken.isSome && cfg.telegramChatId.isSome

/-- A row of a search source before the merge. -/
structure SearchItem where
  url : Option String
  title : String
  sourceDomain : String
  publishedAt : RawDate
  sourceName : String

structure Candidate where
  url : String
  title : String
  sourceDomain : String
  publishedAt : RawDate
  sourceName : String
  canonicalUrlHash : String
  deriving DecidableEq

/-- What `scrape_urls` records for one URL. -/
structure ScrapeResult where
  finalUrl : String
  text : String
  success : Bool
  publishedAt : RawDate
  error : Option String
  deriving DecidableEq

/-- One entry of the webhook's `news` array. -/
structure NewsPayload where
  newsId : Uuid
  title : String
  summary : String
  url : String
  sourceDomain : String
  publishedAt : Option Time
  credibilityScore : Rat
  relevanceScore : Rat
  impactHint : ImpactHint
  proofs : List String
  deriving DecidableEq

structure WebhookPayload where
  marketId : String
  batchId : Uuid
  generatedAt : Time
  news : List NewsPayload
  deriving DecidableEq

structure MarketSubscribeRequest where
  marketId : String
  marketDescription : String
  resolutionDate : Option Time
  callbackUrl : String
  callbackSecret : String
  pollIntervalMinutes : Option Int

structure MarketUpdateRequest where
  marketDescription : Option String
  resolutionDate : Option Time
  callbackUrl : Option String
  callbackSecret : Option String
  status : Option MarketStatus

end NewsNotifier
