import NewsNotifier.NewsSystem

namespace NewsNotifier

open Interleaving

abbrev NewsMove := Move JobId Stmt Answer (List Write) Data (Task × Settings) Time

/-- Answers from outside, for the statements that the data do not decide. -/
abbrev Oracle := (s : Stmt) → Option (Answer s)

def hasReturned (w : NewsWorld) (i : JobId) : Bool :=
  match w.proc i with
  | some (.ret _, _) => true
  | _ => false

theorem hasReturned_ret {w : NewsWorld} {i : JobId} (h : hasReturned w i = true) :
    ∃ l, w.proc i = some (.ret (), l) := by
  unfold hasReturned at h
  split at h
  next u l same => exact ⟨l, same⟩
  next => exact nomatch h

def freshUuid (d : Data) : Uuid := (d.drawn.map (·.1)).foldl max 0 + 1

instance : Std.Total (fun a b : NewsItem => orderedBefore a b = true) := ⟨by
  intro a b
  unfold orderedBefore
  cases a.publishedAt <;> cases b.publishedAt <;> grind⟩

instance : IsTrans NewsItem (fun a b : NewsItem => orderedBefore a b = true) := ⟨by
  intro a b c
  unfold orderedBefore
  cases a.publishedAt <;> cases b.publishedAt <;> cases c.publishedAt <;> grind⟩

theorem isOrdered_of_pairwise {items : List NewsItem}
    (h : items.Pairwise fun a b => orderedBefore a b = true) : isOrdered items = true := by
  induction items with
  | nil => rfl
  | cons item items ih =>
    obtain ⟨first, rest⟩ := List.pairwise_cons.mp h
    simp only [isOrdered, Bool.and_eq_true, List.all_eq_true]
    exact ⟨first, ih rest⟩

theorem nullsLastLe_total (a b : Option Rat) : nullsLastLe a b = true ∨ nullsLastLe b a = true := by
  cases a <;> cases b <;> simp [nullsLastLe, le_total]

theorem nullsLastLe_trans {a b c : Option Rat} (h : nullsLastLe a b = true)
    (h' : nullsLastLe b c = true) : nullsLastLe a c = true := by
  cases a <;> cases b <;> cases c <;> simp_all [nullsLastLe]
  exact h.trans h'

theorem exists_first (f : NewsItem → Option Rat) {items : List NewsItem} (h : items ≠ []) :
    ∃ o ∈ items, ∀ o' ∈ items, nullsLastLe (f o) (f o') = true := by
  induction items with
  | nil => exact absurd rfl h
  | cons item items ih =>
    have self : nullsLastLe (f item) (f item) = true := (nullsLastLe_total _ _).elim id id
    cases items with
    | nil => exact ⟨item, by simp, by simpa using self⟩
    | cons next rest =>
      obtain ⟨o, ho, first⟩ := ih (by simp)
      rcases nullsLastLe_total (f item) (f o) with le | le
      · refine ⟨item, by simp, fun o' ho' => ?_⟩
        rcases List.mem_cons.mp ho' with rfl | ho'
        · exact self
        · exact nullsLastLe_trans le (first o' ho')
      · refine ⟨o, List.mem_cons_of_mem _ ho, fun o' ho' => ?_⟩
        rcases List.mem_cons.mp ho' with rfl | ho'
        · exact le
        · exact first o' ho'

theorem exists_nearest (lib : PyLib) (items : List NewsItem) (e : Embedding) :
    ∃ row, isNearest lib items e row = true := by
  by_cases h : items = []
  · exact ⟨none, by simp [isNearest, h]⟩
  · obtain ⟨o, ho, first⟩ := exists_first (fun o => o.embedding.map (lib.cosineDistance · e)) h
    exact ⟨some (o, o.embedding.map (lib.cosineDistance · e)), by simp [isNearest, ho]; exact first⟩

theorem freshUuid_fresh (d : Data) : d.isFresh (freshUuid d) = true := by
  have le : ∀ (xs : List Nat) (n : Nat), n ≤ xs.foldl max n ∧ ∀ x ∈ xs, x ≤ xs.foldl max n := by
    intro xs
    induction xs with
    | nil => simp
    | cons x xs ih =>
      intro n
      obtain ⟨base, all⟩ := ih (max n x)
      refine ⟨(le_max_left n x).trans base, fun y hy => ?_⟩
      rcases List.mem_cons.mp hy with rfl | hy
      · exact (le_max_right n y).trans base
      · exact all y hy
  simp only [Data.isFresh, List.all_eq_true, decide_eq_true_eq]
  intro e he
  have := (le (d.drawn.map (·.1)) 0).2 e.1 (List.mem_map_of_mem he)
  exact Nat.ne_of_lt (Nat.lt_succ_of_le this)

/-- No statement is stuck: each has a possible answer, unless it waits for a lock. -/
theorem exec_enabled (lib : PyLib) (i : JobId) (s : Stmt) (l : List Write) (d : Data)
    (free : ∀ key, s = .advisoryXactLock key → ∀ e ∈ d.locks, e.1 = key → e.2 = i) :
    ∃ r l' d', exec lib i s r l d = some (l', d') := by
  have read : ∀ {ok : Bool}, ok = true → ∃ l' d', answered ok l d = some (l', d') :=
    fun h => ⟨l, d, by simp [answered, h]⟩
  have perm : ∀ {α : Type} [BEq α] [LawfulBEq α] (xs : List α), xs.isPerm xs = true :=
    fun xs => List.isPerm_iff.mpr (.refl xs)
  have fresh := freshUuid_fresh d
  cases s with
  | advisoryXactLock key =>
    refine ⟨(), l, { d with locks := (key, i) :: d.locks }, if_pos ?_⟩
    simp only [List.all_eq_true, Bool.or_eq_true, decide_eq_true_eq]
    exact fun e he => or_iff_not_imp_left.mpr fun hk => free key rfl e he (not_not.mp hk)
  | getMarket | marketByExternalId | marketStatus | getLog | utcnow => exact ⟨_, read (by simp; rfl)⟩
  | urlHashes | storedFingerprints | sourcesIn | itemsIn | dueMarkets | stuckDeliveries | stuckBatches |
      smembers => exact ⟨_, read (perm _)⟩
  | nearestItem m e =>
    obtain ⟨row, h⟩ := exists_nearest lib ((d.db.after l).itemsOf m) e
    exact ⟨row, read h⟩
  | batchItems m b =>
    refine ⟨(((d.db.after l).itemsOf m).filter (·.batchId = some b)).insertionSort
      fun a b => orderedBefore a b = true, read ?_⟩
    simp only [Bool.and_eq_true]
    exact ⟨List.isPerm_iff.mpr (List.perm_insertionSort _ _),
      isOrdered_of_pairwise (List.pairwise_insertionSort _ _)⟩
  | uniform bound => exact ⟨(0 : Rat), read (by simp)⟩
  | embedTexts texts => exact ⟨none, read rfl⟩
  | insertCandidate row =>
    simp only [exec]
    split
    next => exact ⟨false, _, _, rfl⟩
    next => exact ⟨true, _, _, rfl⟩
  | countResolved b =>
    simp only [exec]
    split
    next => exact ⟨none, read rfl⟩
    next row _ =>
      exact ⟨some (if row.expectedCount ≤ row.resolvedCount + 1 then .closed else row.status), _, _, if_pos rfl⟩
  | closeOpen b =>
    simp only [exec]
    split
    next => exact ⟨false, read rfl⟩
    next => exact ⟨true, _, _, rfl⟩
  | insertItem row =>
    simp only [exec]
    split
    next => exact ⟨none, read rfl⟩
    next => exact ⟨some ⟨freshUuid d, 0⟩, _, _, if_pos fresh⟩
  | insertLog => exact ⟨⟨freshUuid d, 0⟩, _, _, if_pos fresh⟩
  | insertBatch => exact ⟨⟨freshUuid d, 0⟩, _, _, if_pos fresh⟩
  | insertMarket row =>
    simp only [exec]
    split
    next => exact ⟨false, read rfl⟩
    next => exact ⟨true, _, _, rfl⟩
  | uuid4 => exact ⟨freshUuid d, _, _, if_pos fresh⟩
  | enqueueJob id job deferUntil =>
    simp only [exec]
    split
    next => exact ⟨false, read rfl⟩
    next => exact ⟨true, _, _, rfl⟩
  | encryptSecret raw => exact ⟨"", _, _, rfl⟩
  | decryptSecret token => exact ⟨none, _, _, rfl⟩
  | generateJson | embedText => exact ⟨none, _, _, rfl⟩
  | searchSources => exact ⟨[], _, _, rfl⟩
  | scrapeUrl | sendWebhook | sendTelegram => exact ⟨.error (), _, _, rfl⟩
  | commit | assign | sadd | expire | zadd | delete => exact ⟨(), _, _, rfl⟩

/-- The answer that the data give a statement, or the oracle's where they do not. -/
def reply (lib : PyLib) (oracle : Oracle) (l : List Write) (d : Data) (s : Stmt) : Option (Answer s) :=
  let view := d.db.after l
  match s with
  | .advisoryXactLock _ => some ()
  | .commit => some ()
  | .getMarket id => some (view.market id)
  | .marketByExternalId marketId => some (view.markets.find? (·.externalMarketId = marketId))
  | .marketStatus id => some ((view.market id).map (·.status))
  | .urlHashes marketId => some ((view.itemsOf marketId).map (·.canonicalUrlHash))
  | .storedFingerprints marketId =>
    some ((view.itemsOf marketId).map fun o => (o.canonicalUrlHash, o.titleSimhash))
  | .nearestItem marketId e =>
    let rows := (view.itemsOf marketId).map fun o => (o, o.embedding.map (lib.cosineDistance · e))
    some (rows.find? fun row => isNearest lib (view.itemsOf marketId) e (some row))
  | .sourcesIn domains => some (view.sources.filter fun s => domains.contains s.domain)
  | .batchItems marketId batchId =>
    some (((view.itemsOf marketId).filter (·.batchId = some batchId)).insertionSort
      fun a b => orderedBefore a b = true)
  | .getLog id => some (view.logs.find? (·.id = id))
  | .itemsIn ids => some (view.items.filter fun o => ids.contains o.id)
  | .dueMarkets cutoff =>
    some ((view.markets.filter fun m => m.status = .active && m.nextPollAt ≤ cutoff).map (·.id))
  | .stuckDeliveries cutoff =>
    some ((view.logs.filter fun log => (log.status = .pending || log.status = .failed) &&
      log.createdAt ≤ cutoff && view.isActive log.marketId).map (·.id))
  | .stuckBatches cutoff =>
    some ((view.batches.filter fun b => b.status = .opened && b.createdAt ≤ cutoff &&
      view.isActive b.marketId).map fun b => (b.id, b.marketId))
  | .insertCandidate row =>
    some !(view.candidates.any fun c =>
      c.batchId = row.batchId && c.canonicalUrlHash = row.canonicalUrlHash)
  | .countResolved batchId =>
    some ((view.batches.find? fun b => b.id = batchId && b.status = .opened).map fun b =>
      if b.expectedCount ≤ b.resolvedCount + 1 then .closed else b.status)
  | .closeOpen batchId =>
    some (view.batches.find? fun b => b.id = batchId && b.status = .opened).isSome
  | .insertItem _ => some (some ⟨freshUuid d, d.clock⟩)
  | .insertLog _ _ _ => some ⟨freshUuid d, d.clock⟩
  | .insertBatch _ _ _ => some ⟨freshUuid d, d.clock⟩
  | .insertMarket _ => some true
  | .assign _ => some ()
  | .uuid4 => some (freshUuid d)
  | .utcnow => some d.clock
  | .enqueueJob id _ _ => some !(d.redis.live id)
  | .sadd _ _ => some ()
  | .expire _ => some ()
  | .smembers marketId => some ((d.redis.marketJobs.filter (·.1 = marketId)).map (·.2))
  | .zadd _ => some ()
  | .delete _ => some ()
  | s => oracle s

/-- `n` statements of process `i`. -/
def execs (lib : PyLib) (oracle : Oracle) (i : JobId) (n : Nat) : List NewsMove :=
  List.replicate n (.exec i (reply lib oracle))

def sampleLib : PyLib where
  letters := ⟨fun c => [c], fun c => [c], fun _ => false, fun _ => false⟩
  surrogate _ := false
  casefold := id
  isWord c := c != ' '
  isSpace c := c == ' '
  md5 s := s.length
  sha256 := id
  urlsplit u := some ⟨"https", u, "", "", ""⟩
  urlunsplit p := p.netloc
  parseQsl _ := []
  urlencode _ := ""
  parsedateToDatetime _ := .error .valueError
  fromisoformat _ := none
  cosineDistance _ _ := 1
  cosine _ _ := 0
  toFloat32 := id

def sampleSettings : Settings where
  defaultPollIntervalMinutes := 60
  pollJitterFraction := 0
  vectorDedupThreshold := 9 / 10
  simhashHammingThreshold := 1
  maxDeliveryAttempts := 5
  telegramBotToken := none
  telegramChatId := none
  playwrightTimeoutMs := 30000
  scrapeConcurrency := 3
  searchResultsPerSource := 10
  candidatePrefilterTopK := 0
  candidatePrefilterMinSimilarity := 0
  candidateMaxAgeDays := 0

def sampleMarket : Market where
  id := 1
  externalMarketId := "m"
  description := "d"
  resolutionDate := none
  status := .active
  callbackUrl := "u"
  callbackSecretEncrypted := "s"
  pollIntervalMinutes := 60
  nextPollAt := 0
  lastPolledAt := none
  maxDeliveredPublishedAt := none

/-- One active market, at time zero. -/
def sampleData : Data where
  db := ⟨[sampleMarket], [], [], [], [], [], []⟩
  locks := []
  redis := ⟨[], [], [], []⟩
  sent := []
  clock := 0
  drawn := [(1, .call 0)]
  accepted := []
  cycles := []

theorem sampleData_initial : sampleData.Initial := by
  refine ⟨rfl, rfl, rfl, rfl, rfl, rfl, rfl, rfl, by decide, by decide, by decide, rfl, rfl⟩

/-- A sample answer of each outside call: one article is scraped, extracted and embedded. -/
def sampleOracle (title : String) : Oracle
  | .generateJson _ _ => some (some (.obj [("is_relevant", .bool true), ("relevance_reasoning", .str ""),
      ("relevance_score", .num 1), ("credibility_reasoning", .str ""), ("credibility_signal", .num 1),
      ("impact_hint", .str "neutral"), ("title", .str title), ("summary", .str "s"),
      ("proofs", .arr []), ("queries", .arr [])]))
  | .scrapeUrl url _ _ => some (.ok (some ⟨url, "text", true, .none, none⟩))
  | .embedText _ => some (some [1])
  | .encryptSecret raw => some raw
  | .decryptSecret _ => some (some "k")
  | .sendWebhook _ _ _ => some (.ok (some 200, none))
  | .sendTelegram _ _ _ _ => some (.ok (some 200, none))
  | .uniform _ => some 0
  | .searchSources _ _ => some []
  | _ => none

def sampleCandidate (hash : String) : Candidate := ⟨hash, hash, "", .none, "", hash⟩

def sampleWorld : NewsWorld := ⟨sampleData, fun _ => none⟩

def datedCandidate (hash : String) (t : Int) : Candidate :=
  ⟨hash, hash, "", .datetime ⟨t, some 0⟩, "", hash⟩

/-- An article of this date is stored with a log of its own. -/
def storesDated (i : JobId) (hash title : String) (t : Int) : List NewsMove :=
  .start i (.job (.processCandidate 1 (datedCandidate hash t) none), sampleSettings) ::
    execs sampleLib (sampleOracle title) i 13

/-- Two logs of one market, of an article dated 10 and one dated 20. -/
def twoDatedLogs : List NewsMove :=
  storesDated (.call 1) "a" "t" 10 ++ storesDated (.call 2) "b" "another longer title" 20

end NewsNotifier
