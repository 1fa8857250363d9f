import NewsNotifier.ExecutionTraces
import NewsNotifier.ServicePrograms

namespace NewsNotifier

open Interleaving

/-- The statements that change nothing; items are read in the market's own rows only. -/
def Stmt.reading (m : Uuid) : Stmt → Prop
  | .urlHashes id | .storedFingerprints id | .nearestItem id _ => id = m
  | .getMarket _ | .marketByExternalId _ | .marketStatus _ | .sourcesIn _ | .dueMarkets _
  | .stuckDeliveries _ | .stuckBatches _ | .utcnow | .uniform _ | .encryptSecret _
  | .generateJson _ _ | .searchSources _ _ | .embedTexts _ | .embedText _ | .scrapeUrl _ _ _
  | .smembers _ => True
  | _ => False

/-- The statements of the batching functions in a market but the slots' own, and the enqueue of a delivery. -/
def Stmt.batching (m : Uuid) : Stmt → Prop
  | .batchItems id _ => id = m
  | .insertLog id _ _ => id = m
  | .enqueueJob _ (.deliverBatch _) _ => True
  | .advisoryXactLock _ | .commit | .countResolved _ | .closeOpen _ | .uuid4 => True
  | _ => False

/-- The statements of a delivery but its webhook. -/
def Stmt.delivering : Stmt → Prop
  | .getLog _ | .getMarket _ | .itemsIn _ | .utcnow | .decryptSecret _ | .sendTelegram _ _ _ _
  | .commit | .assign (.setLog _ _) | .assign (.setDelivered _)
  | .assign (.setMarket _ (.maxDeliveredPublishedAt _)) => True
  | _ => False

def MarketChange.isWatermark : MarketChange → Bool
  | .maxDeliveredPublishedAt _ => true
  | _ => false

/-- The slot of a candidate may be filled, if it has one. -/
abbrev Fillable (P : Stmt → Prop) (candidate : Candidate) (batchId : Option Uuid) : Prop :=
  ∀ b outcome item, batchId = some b → P (.insertCandidate ⟨b, candidate.canonicalUrlHash, outcome, item⟩)

/-- The row of a candidate's item: its date comes from the search or else from the page. -/
structure CandidateRow (lib : PyLib) (m : Uuid) (c : Candidate) (batchId : Option Uuid)
    (page : RawDate → Prop) (row : NewsItem) : Prop where
  market : row.marketId = m
  batch : row.batchId = batchId
  delivered : row.delivered = false
  date : ∃ raw, page raw ∧ itemDate lib c.publishedAt raw = .ok row.publishedAt

section Batching

variable {P : Stmt → Prop} {F : Raised → Prop} {m : Uuid}

theorem enqueueDelivery_does
    (sends : ∀ id, P (.enqueueJob (.deliverBatch id) (.deliverBatch id) none)) (logId : Option Uuid) :
    (enqueueDelivery logId).Each P F := by
  cases logId with
  | none => exact True.intro
  | some log => exact ⟨sends log, fun _ => True.intro⟩

variable (does : ∀ s, s.batching m → P s)

include does

theorem finalizeBatchDelivery_does (b : Uuid) : (finalizeBatchDelivery m b).Each P F := by
  refine ⟨does _ rfl, fun items => ?_⟩
  simp only [Prog.ret_bind]
  split
  next => exact True.intro
  next => exact ⟨does _ rfl, fun _ => True.intro⟩

theorem createSoloDelivery_does (id : Uuid) : (createSoloDelivery m id).Each P F :=
  ⟨does _ True.intro, fun _ => ⟨does _ rfl, fun _ => True.intro⟩⟩

theorem resolveBatchCandidate_does {b : Uuid} {h outcome : String} {item : Option Uuid}
    (slot : P (.insertCandidate ⟨b, h, outcome, item⟩)) :
    (resolveBatchCandidate m b h outcome item).Each P F := by
  refine ⟨does _ True.intro, fun _ => ⟨slot, fun inserted => ?_⟩⟩
  simp only [Prog.ret_bind]
  split
  next => exact ⟨does _ True.intro, fun _ => True.intro⟩
  next =>
    refine ⟨does _ True.intro, fun row => ?_⟩
    simp only [Prog.ret_bind]
    split
    next =>
      refine ⟨does _ True.intro, fun _ => ?_⟩
      cases item with
      | none => exact True.intro
      | some id =>
        exact (createSoloDelivery_does does id).bind fun _ => ⟨does _ True.intro, fun _ => True.intro⟩
    next => exact ⟨does _ True.intro, fun _ => True.intro⟩
    next => exact (finalizeBatchDelivery_does does b).bind fun _ => ⟨does _ True.intro, fun _ => True.intro⟩

theorem forceCloseBatch_does (b : Uuid) : (forceCloseBatch m b).Each P F := by
  refine ⟨does _ True.intro, fun _ => ⟨does _ True.intro, fun row => ?_⟩⟩
  simp only [Prog.ret_bind]
  split
  next => exact ⟨does _ True.intro, fun _ => True.intro⟩
  next => exact (finalizeBatchDelivery_does does b).bind fun _ => ⟨does _ True.intro, fun _ => True.intro⟩

theorem resolve_does {candidate : Candidate} {batchId : Option Uuid} (slots : Fillable P candidate batchId)
    (outcome : String) (item : Option Uuid) : (resolve m candidate batchId outcome item).Each P F := by
  cases batchId with
  | some b => exact (resolveBatchCandidate_does does (slots b _ _ rfl)).bind fun _ =>
      enqueueDelivery_does (fun _ => does _ True.intro) _
  | none =>
    cases item with
    | none => exact ⟨does _ True.intro, fun _ => True.intro⟩
    | some id =>
      exact (createSoloDelivery_does does id).bind fun _ =>
        ⟨does _ True.intro, fun _ => enqueueDelivery_does (fun _ => does _ True.intro) (some _)⟩

end Batching

section Candidate

variable {P : Stmt → Prop} {F : Raised → Prop} {lib : PyLib} {cfg : Settings} {m : Uuid}
  {candidate : Candidate} {batchId : Option Uuid} {scraped : ScrapeResult}

theorem computeCredibility_does (hF : F (.py .typeError)) (reads : ∀ s, s.reading m → P s)
    (domain : String) (signal : Json) : (computeCredibility domain signal).Each P F := by
  refine Prog.Each.bind ?_ fun rows => ?_
  · unfold sourceRows
    split
    next => exact True.intro
    next => exact ⟨reads _ True.intro, fun _ => True.intro⟩
  · split
    next => exact hF
    next => exact True.intro

/-- A resolution of the candidate in this market. -/
def Resolution (m : Uuid) (candidate : Candidate) (batchId : Option Uuid) (p : Program Unit) : Prop :=
  ∃ outcome item, p = resolve m candidate batchId outcome item

theorem Resolution.does (does : ∀ s, s.batching m → P s) (slots : Fillable P candidate batchId) (p : Program Unit)
    (h : Resolution m candidate batchId p) : p.Each P F := by
  obtain ⟨outcome, item, rfl⟩ := h
  exact resolve_does does slots outcome item

theorem drop_leads (outcome : String) :
    (resolve m candidate batchId outcome none).Leads P F (Resolution m candidate batchId) :=
  .last ⟨outcome, none, rfl⟩

variable (hF : ∀ e, F e) (reads : ∀ s, s.reading m → P s) {finalHash : String}
  (stores : ∀ row, CandidateRow lib m candidate batchId (· = scraped.publishedAt) row →
    row.canonicalUrlHash = finalHash → P (.insertItem row))

include hF reads stores

theorem storeItem_leads (domain title : String) (extracted : Extracted) (embedding : Embedding) :
    (storeItem lib m candidate batchId scraped finalHash domain title extracted embedding).Leads P F
      (Resolution m candidate batchId) := by
  refine Prog.Leads.bind (computeCredibility_does (hF _) reads _ _) fun score => ?_
  split
  next => exact .raise (hF _)
  next =>
    split
    next => exact .raise (hF _)
    next date =>
      split
      next =>
        split
        next =>
          refine .stmt (stores _ ⟨rfl, rfl, rfl, _, rfl, date⟩ rfl) fun row => ?_
          cases row with
          | none => exact .raise (hF _)
          | some new => exact .last ⟨"stored", some new.id, rfl⟩
        next => exact .raise (hF _)
      next => exact .raise (hF _)

theorem dedupAndStore_leads (lock : P (.advisoryXactLock (marketLockKey m))) (domain title : String)
    (extracted : Extracted) (embedding : Embedding) :
    (dedupAndStore lib cfg m candidate batchId scraped finalHash domain title extracted embedding).Leads P F
      (Resolution m candidate batchId) := by
  refine .stmt lock fun _ => .stmt (reads _ True.intro) fun status => ?_
  simp only [Prog.ret_bind]
  split
  next => exact drop_leads _
  next =>
    refine .stmt (reads _ rfl) fun stored => ?_
    simp only [Prog.ret_bind]
    split
    next => exact drop_leads _
    next =>
      split
      next => exact drop_leads _
      next =>
        refine .stmt (reads _ rfl) fun row => ?_
        simp only [Prog.ret_bind]
        split
        next => exact .raise (hF _)
        next => exact drop_leads _
        next => exact storeItem_leads hF reads stores domain title extracted embedding

end Candidate

section Candidate

variable {P : Stmt → Prop} {F : Raised → Prop} {lib : PyLib} {cfg : Settings} {market : Market}
  {candidate : Candidate} {batchId : Option Uuid}

theorem dedupAndStore_does {m : Uuid} (hF : ∀ e, F e) (reads : ∀ s, s.reading m → P s)
    (does : ∀ s, s.batching m → P s) (slots : Fillable P candidate batchId) {scraped : ScrapeResult}
    {finalHash : String} (stores : ∀ row, CandidateRow lib m candidate batchId (· = scraped.publishedAt) row →
      row.canonicalUrlHash = finalHash → P (.insertItem row)) (domain title : String) (extracted : Extracted)
    (embedding : Embedding) :
    (dedupAndStore lib cfg m candidate batchId scraped finalHash domain title extracted embedding).Each P F :=
  (dedupAndStore_leads hF reads stores (does _ True.intro) domain title extracted embedding).each
    (Resolution.does does slots)

theorem extractAndScore_does (reads : ∀ s, s.reading market.id → P s) (description text domain : String) :
    (extractAndScore lib description text domain).Each P F := by
  unfold extractAndScore
  split
  next => exact True.intro
  next => exact ⟨reads _ True.intro, fun _ => True.intro⟩

theorem embedSummary_does (reads : ∀ s, s.reading market.id → P s) (summary : Json) :
    (embedSummary summary).Each P F := by
  unfold embedSummary
  split
  next => exact ⟨reads _ True.intro, fun _ => True.intro⟩
  next => exact ⟨reads _ True.intro, fun _ => True.intro⟩
  next => exact True.intro

theorem scrapeFailed_leads (hF : ∀ e, F e) (fails : ∀ row, P (.assign (.insertFailure row)))
    (result : Option ScrapeResult) : (scrapeFailed lib market candidate batchId result).Leads P F
      (Resolution market.id candidate batchId) := by
  unfold scrapeFailed
  split
  next => exact .raise (hF _)
  next =>
    dsimp only
    split
    next => exact .stmt (fails _) fun _ => drop_leads _
    next => exact .raise (hF _)

theorem scrapeFailed_does (hF : ∀ e, F e) (does : ∀ s, s.batching market.id → P s)
    (slots : Fillable P candidate batchId) (fails : ∀ row, P (.assign (.insertFailure row)))
    (result : Option ScrapeResult) :
    (scrapeFailed lib market candidate batchId result).Each P F :=
  (scrapeFailed_leads hF fails result).each (Resolution.does does slots)

theorem extractAndStore_leads (hF : ∀ e, F e) (reads : ∀ s, s.reading market.id → P s)
    (lock : P (.advisoryXactLock (marketLockKey market.id))) {scraped : ScrapeResult}
    (stores : ∀ row, CandidateRow lib market.id candidate batchId (· = scraped.publishedAt) row →
      urlHash lib scraped.finalUrl = .ok row.canonicalUrlHash → P (.insertItem row)) :
    (extractAndStore lib cfg market candidate batchId scraped).Leads P F
      (Resolution market.id candidate batchId) := by
  unfold extractAndStore
  split
  next => exact .raise (hF _)
  next => exact .raise (hF _)
  next finalHash domain hashed _ =>
    refine Prog.Leads.bind (extractAndScore_does reads _ _ _) fun extraction => ?_
    split
    next => exact drop_leads _
    next => exact drop_leads _
    next extracted =>
      split
      next => exact drop_leads _
      next =>
        split
        next title _ =>
          refine Prog.Leads.bind (embedSummary_does reads _) fun embedding => ?_
          split
          next => exact drop_leads _
          next =>
            exact dedupAndStore_leads hF reads (fun row h e => stores row h (e ▸ hashed)) lock domain title
              extracted _
        next => exact .raise (hF _)

theorem extractAndStore_does (hF : ∀ e, F e) (reads : ∀ s, s.reading market.id → P s)
    (does : ∀ s, s.batching market.id → P s) (slots : Fillable P candidate batchId) {scraped : ScrapeResult}
    (stores : ∀ row, CandidateRow lib market.id candidate batchId (· = scraped.publishedAt) row →
      urlHash lib scraped.finalUrl = .ok row.canonicalUrlHash → P (.insertItem row)) :
    (extractAndStore lib cfg market candidate batchId scraped).Each P F :=
  (extractAndStore_leads hF reads (does _ True.intro) stores).each (Resolution.does does slots)

/-- Every path of `process_candidate` that does not raise leads to a resolution. -/
theorem processCandidate_leads (m : Uuid) (hF : ∀ e, F e) (reads : ∀ m s, Stmt.reading m s → P s)
    (locks : ∀ key, P (.advisoryXactLock key)) (fails : ∀ row, P (.assign (.insertFailure row)))
    (stores : ∀ m row, CandidateRow lib m candidate batchId (fun _ => True) row →
      P (.insertItem row)) :
    (processCandidate lib cfg m candidate batchId).Leads P F fun p => ∃ m, Resolution m candidate batchId p := by
  refine .stmt (reads m _ True.intro) fun found => ?_
  simp only [Prog.ret_bind]
  split
  next => exact (drop_leads _).mono fun _ h => ⟨m, h⟩
  next market =>
    split
    next => exact (drop_leads _).mono fun _ h => ⟨m, h⟩
    next =>
      refine .stmt (reads m _ True.intro) fun scraped => ?_
      simp only [Prog.ret_bind]
      split
      next => exact .raise (hF _)
      next => exact (scrapeFailed_leads (fun _ => hF _) fails none).mono fun _ h => ⟨market.id, h⟩
      next result =>
        split
        next => exact (scrapeFailed_leads (fun _ => hF _) fails _).mono fun _ h => ⟨market.id, h⟩
        next =>
          refine (extractAndStore_leads hF (reads market.id) (locks _) fun row h _ => ?_).mono
            fun _ h => ⟨market.id, h⟩
          obtain ⟨raw, _, date⟩ := h.date
          exact stores market.id row ⟨h.market, h.batch, h.delivered, raw, True.intro, date⟩

theorem processCandidate_does (m : Uuid) (hF : ∀ e, F e) (reads : ∀ m s, Stmt.reading m s → P s)
    (does : ∀ m s, Stmt.batching m s → P s) (slots : Fillable P candidate batchId)
    (fails : ∀ row, P (.assign (.insertFailure row)))
    (stores : ∀ m row, CandidateRow lib m candidate batchId (fun _ => True) row →
      P (.insertItem row)) :
    (processCandidate lib cfg m candidate batchId).Each P F := by
  refine (processCandidate_leads m hF reads (fun _ => does m _ True.intro) fails stores).each fun p h => ?_
  obtain ⟨m', resolution⟩ := h
  exact resolution.does (does m') slots

end Candidate

section Market

variable {P : Stmt → Prop} {F : Raised → Prop} {lib : PyLib} {cfg : Settings} {m : Uuid}

theorem assignMarket_does (market : Market) {change : MarketChange}
    (sets : P (.assign (.setMarket market.id change))) : (assignMarket market change).Each P F := by
  unfold assignMarket
  split
  next => exact True.intro
  next => exact ⟨sets, fun _ => True.intro⟩

theorem registerMarketJob_does (adds : ∀ id, P (.sadd m id)) (expires : P (.expire m)) (jobId : JobId) :
    (registerMarketJob m jobId).Each P F :=
  ⟨adds _, fun _ => ⟨expires, fun _ => True.intro⟩⟩

theorem ofExcept_does {α : Type} (hF : ∀ e, F (.py e)) (x : Except PyError α) :
    (ofExcept x).Each P F := by
  cases x with
  | error e => exact hF e
  | ok a => exact True.intro

theorem ofExcept_yields {α : Type} {x : Except PyError α} {Y : α → Prop} (h : ∀ a, x = .ok a → Y a) :
    (ofExcept x).Yields Y := by
  cases x with
  | error e => exact True.intro
  | ok a => exact h a rfl

theorem ofExcept_obeys {M α : Type} {O : Monitor Stmt Answer M} {Q : M → α → Prop} {memory : M} {x : Except PyError α}
    (ok : ∀ a, x = .ok a → Q memory a) : (ofExcept x).Obeys O Q (fun _ _ => True) memory := by
  cases x with
  | error e => exact True.intro
  | ok a => exact ok a rfl

theorem selectCandidates_does (market : Market) (hF : ∀ e, F (.py e))
    (reads : ∀ s, s.reading market.id → P s) : (selectCandidates lib cfg market).Each P F := by
  have queries : (generateQueriesCall lib market.description).Each P F :=
    ⟨reads _ True.intro, fun _ => ofExcept_does hF _⟩
  refine queries.bind fun qs => ?_
  have search : (searchAllSources lib qs cfg.searchResultsPerSource).Each P F :=
    ⟨reads _ True.intro, fun _ => ofExcept_does hF _⟩
  refine search.bind fun candidates => ⟨reads _ rfl, fun hashes => ⟨reads _ True.intro, fun now => ?_⟩⟩
  simp only [Prog.ret_bind]
  refine (ofExcept_does hF _).bind fun recent => (ofExcept_does hF _).bind fun unstale => ?_
  unfold selectRelevantCandidates
  split
  next => exact True.intro
  next =>
    refine ⟨reads _ True.intro, fun vectors => ?_⟩
    simp only [Prog.ret_bind]
    split
    next => exact hF _
    next => exact hF _
    next => exact True.intro

variable (does : ∀ s, s.batching m → P s) (adds : ∀ id, P (.sadd m id)) (expires : P (.expire m))

include does adds expires

theorem dispatchCandidate_does (batchId : Option Uuid) (candidate : Candidate)
    (asks : P (.enqueueJob (.processCandidate m candidate.canonicalUrlHash)
      (.processCandidate m candidate batchId) none)) (slots : Fillable P candidate batchId) :
    (dispatchCandidate m batchId candidate).Each P F := by
  refine ⟨asks, fun accepted => ?_⟩
  simp only [Prog.ret_bind, Prog.bind_eq]
  refine (registerMarketJob_does adds expires _).bind fun _ => ?_
  cases batchId with
  | none => exact True.intro
  | some b =>
    dsimp only
    split
    next => exact True.intro
    next =>
      exact (resolveBatchCandidate_does does (slots b _ _ rfl)).bind fun _ =>
        enqueueDelivery_does (fun _ => does _ True.intro) _

theorem dispatchCycle_does (next : Time)
    (polls : ∀ t, P (.enqueueJob (.processMarket m t) (.processMarket m) (some t)))
    (batchId : Option Uuid) (selected : List Candidate)
    (asks : ∀ c ∈ selected, P (.enqueueJob (.processCandidate m c.canonicalUrlHash)
      (.processCandidate m c batchId) none)) (slots : ∀ c ∈ selected, Fillable P c batchId) :
    (dispatchCycle m next batchId selected).Each P F :=
  ⟨polls next, fun _ => Prog.Each.forEach fun c hc =>
    dispatchCandidate_does does adds expires batchId c (asks c hc) (slots c hc)⟩

end Market

section Delivery

variable {P : Stmt → Prop} {F : Raised → Prop} {cfg : Settings} {market : Market} {log : DeliveryLog}
  {items : List NewsItem} (does : ∀ s, s.delivering → P s) (hF : ∀ message, F (.runtimeError message))
  (he : F (.py .external))

include does

theorem recordFailure_does (hF : ∀ message, F (.runtimeError message)) (channel : String)
    (statusCode : Option Int) (error : Option String) :
    (recordFailure cfg log channel statusCode error).Each P F := by
  refine ⟨does _ True.intro, fun _ => ⟨does _ True.intro, fun _ => ?_⟩⟩
  split
  next => exact ⟨does _ True.intro, fun _ => ⟨does _ True.intro, fun _ => True.intro⟩⟩
  next => exact ⟨does _ True.intro, fun _ => ⟨does _ True.intro, fun _ => hF _⟩⟩

theorem finishDelivery_does : (finishDelivery market log items).Each P F := by
  have commit : (Prog.stmt .commit .ret : Program Unit).Each P F :=
    ⟨does _ True.intro, fun _ => True.intro⟩
  refine ⟨does _ True.intro, fun _ => ⟨does _ True.intro, fun _ => ⟨does _ True.intro, fun now =>
    ⟨does _ True.intro, fun _ => ?_⟩⟩⟩⟩
  simp only [Prog.ret_bind, Prog.bind_eq]
  refine Prog.Each.bind (Prog.Each.forEach fun item _ => ?_) fun _ => ?_
  · exact ⟨does _ True.intro, fun _ => True.intro⟩
  · split
    next => exact commit
    next newest _ =>
      split
      next =>
        exact (assignMarket_does market
          (does (.assign (.setMarket market.id (.maxDeliveredPublishedAt newest))) True.intro)).bind
          fun _ => commit
      next => exact commit

include hF he

theorem telegramLoop_does (rest : List NewsItem) (sent : List Uuid) :
    (telegramLoop cfg market log items rest sent).Each P F := by
  induction rest generalizing sent with
  | nil => exact finishDelivery_does does
  | cons item rest ih =>
    unfold telegramLoop
    split
    next => exact ih sent
    next =>
      refine ⟨does _ True.intro, fun answer => ?_⟩
      simp only [Prog.ret_bind]
      split
      next => exact he
      next =>
        split
        next => exact recordFailure_does does hF _ _ _
        next =>
          exact ⟨does _ True.intro, fun _ => ⟨does _ True.intro, fun _ => ⟨does _ True.intro, fun _ =>
            ⟨does _ True.intro, fun _ => ih _⟩⟩⟩⟩

theorem deliverTelegram_does : (deliverTelegram cfg market log items).Each P F := by
  unfold deliverTelegram
  split
  next => exact telegramLoop_does does hF he _ _
  next => exact finishDelivery_does does

theorem deliverWebhook_does (posts : ∀ url secret payload, P (.sendWebhook url secret payload))
    (payload : WebhookPayload) : (deliverWebhook cfg market log items payload).Each P F := by
  refine ⟨does _ True.intro, fun secret => ?_⟩
  simp only [Prog.ret_bind]
  split
  next => exact he
  next =>
    refine ⟨posts _ _ _, fun answer => ?_⟩
    simp only [Prog.ret_bind]
    split
    next => exact he
    next =>
      split
      next => exact recordFailure_does does hF _ _ _
      next =>
        exact ⟨does _ True.intro, fun _ => ⟨does _ True.intro, fun _ => ⟨does _ True.intro, fun _ =>
          ⟨does _ True.intro, fun _ => deliverTelegram_does does hF he⟩⟩⟩⟩

theorem deliverBatch_does (posts : ∀ url secret payload, P (.sendWebhook url secret payload))
    (logId : Uuid) : (deliverBatch cfg logId).Each P F := by
  refine ⟨does _ True.intro, fun found => ?_⟩
  simp only [Prog.ret_bind]
  split
  next => exact True.intro
  next =>
    split
    next => exact True.intro
    next =>
      refine ⟨does _ True.intro, fun market => ?_⟩
      simp only [Prog.ret_bind]
      split
      next => exact True.intro
      next =>
        split
        next => exact True.intro
        next =>
          refine ⟨does _ True.intro, fun fetched => ⟨does _ True.intro, fun now =>
            ⟨does _ True.intro, fun _ => ?_⟩⟩⟩
          simp only [Prog.ret_bind]
          split
          next => exact deliverTelegram_does does hF he
          next => exact deliverWebhook_does does hF he posts _

end Delivery

/-- The statements that the API and the cron jobs share. -/
structure Serves (P : Stmt → Prop) : Prop where
  reads : ∀ m s, Stmt.reading m s → P s
  commits : P .commit
  sets : ∀ id c, MarketChange.isWatermark c = false → P (.assign (.setMarket id c))
  aborts : ∀ ids, P (.zadd ids)
  deletes : ∀ m, P (.delete m)

section Service

variable {P : Stmt → Prop} {F : Raised → Prop} {lib : PyLib} {cfg : Settings}

theorem processMarket_does (m : Uuid) (hF : ∀ e, F (.py e)) (reads : ∀ m s, Stmt.reading m s → P s)
    (does : ∀ m s, Stmt.batching m s → P s) (slots : ∀ row, P (.insertCandidate row))
    (sets : ∀ id c, MarketChange.isWatermark c = false → P (.assign (.setMarket id c)))
    (opens : ∀ m n w, P (.insertBatch m n w))
    (polls : ∀ m t, P (.enqueueJob (.processMarket m t) (.processMarket m) (some t)))
    (asks : ∀ m (c : Candidate) b, P (.enqueueJob (.processCandidate m c.canonicalUrlHash)
      (.processCandidate m c b) none))
    (adds : ∀ m id, P (.sadd m id)) (expires : ∀ m, P (.expire m)) :
    (processMarket lib cfg m).Each P F := by
  refine ⟨reads m _ True.intro, fun found => ?_⟩
  simp only [Prog.ret_bind]
  split
  next => exact True.intro
  next market =>
    have cycle : ∀ next batchId selected, (dispatchCycle market.id next batchId selected).Each P F :=
      fun next batchId selected => dispatchCycle_does (does market.id) (adds market.id)
        (expires market.id) next (polls market.id) batchId selected (fun c _ => asks market.id c batchId)
        fun _ _ _ _ _ _ => slots _
    split
    next => exact True.intro
    next =>
      refine (selectCandidates_does market hF (reads market.id)).bind fun selected => ?_
      refine ⟨reads m _ True.intro, fun lastPolledAt => ⟨reads m _ True.intro, fun u => ?_⟩⟩
      refine (assignMarket_does market (sets _ _ rfl)).bind fun _ =>
        (assignMarket_does market (sets _ _ rfl)).bind fun _ => ?_
      split
      next => exact ⟨does market.id _ True.intro, fun _ => cycle _ _ _⟩
      next => exact ⟨opens _ _ _, fun _ => ⟨does market.id _ True.intro, fun _ => cycle _ _ _⟩⟩

theorem enqueuePoll_does (polls : ∀ m t, P (.enqueueJob (.processMarket m t) (.processMarket m) (some t)))
    (now : Time) (m : Uuid) : (enqueuePoll now m).Each P F :=
  ⟨polls m now, fun _ => True.intro⟩

theorem enqueueDueMarkets_does (reads : ∀ m s, Stmt.reading m s → P s)
    (polls : ∀ m t, P (.enqueueJob (.processMarket m t) (.processMarket m) (some t))) :
    enqueueDueMarkets.Each P F := by
  refine ⟨reads 0 _ True.intro, fun start => ⟨reads 0 _ True.intro, fun marketIds =>
    ⟨reads 0 _ True.intro, fun now => ?_⟩⟩⟩
  exact Prog.Each.forEach fun m _ => enqueuePoll_does polls now m

theorem enqueueStuckDeliveries_does (reads : ∀ m s, Stmt.reading m s → P s)
    (does : ∀ m s, Stmt.batching m s → P s) : enqueueStuckDeliveries.Each P F := by
  refine ⟨reads 0 _ True.intro, fun now => ⟨reads 0 _ True.intro, fun logIds => ?_⟩⟩
  exact Prog.Each.forEach fun logId _ =>
    enqueueDelivery_does (fun _ => does 0 _ True.intro) (some logId)

theorem enqueueStuckBatches_does (reads : ∀ m s, Stmt.reading m s → P s)
    (does : ∀ m s, Stmt.batching m s → P s) : enqueueStuckBatches.Each P F := by
  refine ⟨reads 0 _ True.intro, fun now => ⟨reads 0 _ True.intro, fun rows => ?_⟩⟩
  refine Prog.Each.forEach fun row _ => ?_
  exact (forceCloseBatch_does (does row.2) row.1).bind fun _ =>
    enqueueDelivery_does (fun _ => does 0 _ True.intro) _

theorem openBatch_does (commits : P .commit) (opens : ∀ m n w, P (.insertBatch m n w)) (m : Uuid)
    (n : Nat) : (openBatch m n).Each P F :=
  ⟨opens m n none, fun _ => ⟨commits, fun _ => True.intro⟩⟩

variable (serves : Serves P) (hF : ∀ e, e ≠ .integrityError "uq_news_market_url" → F e)

include serves

theorem abortMarketJobs_does (m : Uuid) : (abortMarketJobs m).Each P F := by
  refine ⟨serves.reads m _ True.intro, fun jobIds => ?_⟩
  simp only [Prog.ret_bind]
  split
  next => exact ⟨serves.deletes m, fun _ => True.intro⟩
  next => exact ⟨serves.aborts _, fun _ => ⟨serves.deletes m, fun _ => True.intro⟩⟩

theorem assignSome_does {α : Type} (market : Market) (value : Option α) (change : α → MarketChange)
    (plain : ∀ a, (change a).isWatermark = false) : (assignSome market value change).Each P F := by
  cases value with
  | none => exact True.intro
  | some a => exact assignMarket_does market (serves.sets _ _ (plain a))

theorem assignSecret_does (market : Market) (value : Option String) :
    (assignSecret market value).Each P F := by
  cases value with
  | none => exact True.intro
  | some raw =>
    exact ⟨serves.reads 0 _ True.intro, fun _ => assignMarket_does market (serves.sets _ _ rfl)⟩

include hF

theorem subscribe_does (draws : P .uuid4)
    (inserts : ∀ row, Market.maxDeliveredPublishedAt row = none → P (.insertMarket row))
    (polls : ∀ m t, P (.enqueueJob (.processMarket m t) (.processMarket m) (some t)))
    (body : MarketSubscribeRequest) : (subscribe cfg body).Each P F := by
  refine ⟨serves.reads 0 _ True.intro, fun existing => ?_⟩
  simp only [Prog.ret_bind]
  cases existing with
  | some market => exact hF _ (by simp)
  | none =>
    refine ⟨serves.reads 0 _ True.intro, fun now => ⟨serves.reads 0 _ True.intro, fun secret =>
      ⟨draws, fun id => ⟨inserts _ rfl, fun inserted => ?_⟩⟩⟩⟩
    simp only [Prog.ret_bind]
    split
    next => exact hF _ (by simp)
    next => exact ⟨serves.reads id _ True.intro, fun _ => enqueuePoll_does polls now id⟩

theorem unsubscribe_does (marketId : String) : (unsubscribe marketId).Each P F := by
  refine ⟨serves.reads 0 _ True.intro, fun found => ?_⟩
  simp only [Prog.ret_bind]
  cases found with
  | none => exact hF _ (by simp)
  | some market =>
    refine (assignMarket_does market (serves.sets _ _ rfl)).bind fun _ => ⟨serves.commits, fun _ => ?_⟩
    exact (abortMarketJobs_does serves market.id).bind fun _ => True.intro

theorem updateMarket_does (polls : ∀ m t, P (.enqueueJob (.processMarket m t) (.processMarket m) (some t)))
    (marketId : String) (body : MarketUpdateRequest) : (updateMarket marketId body).Each P F := by
  refine ⟨serves.reads 0 _ True.intro, fun found => ?_⟩
  simp only [Prog.ret_bind]
  cases found with
  | none => exact hF _ (by simp)
  | some market =>
    refine (assignSome_does serves market _ _ fun _ => rfl).bind fun _ =>
      (assignSome_does serves market _ _ fun _ => rfl).bind fun _ =>
      (assignSome_does serves market _ _ fun _ => rfl).bind fun _ =>
      (assignSecret_does serves market _).bind fun _ =>
      (assignSome_does serves market _ _ fun _ => rfl).bind fun _ =>
      ⟨serves.commits, fun _ => ⟨serves.reads 0 _ True.intro, fun refreshed => ?_⟩⟩
    simp only [Prog.ret_bind]
    cases refreshed with
    | none => exact hF _ (by simp)
    | some refreshed =>
      dsimp only
      split
      next => exact (abortMarketJobs_does serves market.id).bind fun _ => True.intro
      next =>
        split
        next => exact ⟨serves.reads 0 _ True.intro, fun now => enqueuePoll_does polls now market.id⟩
        next => exact True.intro

end Service

/-- The statements of a task, given those of the jobs. -/
theorem taskProgram_does {P : Stmt → Prop} {lib : PyLib} {cfg : Settings} (serves : Serves P)
    (does : ∀ m s, Stmt.batching m s → P s) (opens : ∀ m n w, P (.insertBatch m n w))
    (inserts : ∀ row, Market.maxDeliveredPublishedAt row = none → P (.insertMarket row))
    (polls : ∀ m t, P (.enqueueJob (.processMarket m t) (.processMarket m) (some t))) {task : Task}
    (slots : ∀ m b hash outcome item, task = .resolveBatchCandidate m b hash outcome item →
      P (.insertCandidate ⟨b, hash, outcome, item⟩))
    (jobs : ∀ j, task = .job j → (jobProgram lib cfg j).Each P fun _ => True) :
    (taskProgram lib cfg task).Each P fun _ => True := by
  have sends : ∀ logId, (enqueueDelivery logId).Each P fun _ => True :=
    enqueueDelivery_does fun _ => does 0 _ True.intro
  cases task with
  | job j => exact jobs j rfl
  | subscribe body =>
    exact subscribe_does serves (fun _ _ => True.intro) (does 0 _ True.intro) inserts polls body
  | unsubscribe marketId => exact unsubscribe_does serves (fun _ _ => True.intro) marketId
  | updateMarket marketId body =>
    exact updateMarket_does serves (fun _ _ => True.intro) polls marketId body
  | enqueueDueMarkets => exact enqueueDueMarkets_does serves.reads polls
  | enqueueStuckDeliveries => exact enqueueStuckDeliveries_does serves.reads does
  | enqueueStuckBatches => exact enqueueStuckBatches_does serves.reads does
  | resolveBatchCandidate m b hash outcome item =>
    exact (resolveBatchCandidate_does (does m) (slots m b hash outcome item rfl)).bind sends
  | forceCloseBatch m b => exact (forceCloseBatch_does (does m) b).bind sends
  | openBatch m n => exact openBatch_does serves.commits opens m n

end NewsNotifier
