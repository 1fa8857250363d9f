import NewsNotifier.NewsStatements

namespace NewsNotifier

open Interleaving

/-- One statement of process `i` with answer `r`: `none` when this answer is impossible or the
statement has to wait. Each statement reads what is committed when it runs and the session's own
writes. Row locks are left out: they only delay a statement. -/
def exec (lib : PyLib) (i : JobId) (s : Stmt) (r : Answer s) (l : List Write) (d : Data) :
    Option (List Write × Data) :=
  let view := d.db.after l
  match s, r with
  | .advisoryXactLock key, _ =>
    if d.locks.all fun e => e.1 ≠ key || e.2 = i then
      some (l, { d with locks := (key, i) :: d.locks })
    else none
  | .commit, _ => some ([], { d with db := view }.release i)
  | .getMarket id, r => answered (r = view.market id) l d
  | .marketByExternalId marketId, r =>
    answered (r = view.markets.find? (·.externalMarketId = marketId)) l d
  | .marketStatus id, r => answered (r = (view.market id).map (·.status)) l d
  | .urlHashes marketId, r =>
    answered (r.isPerm ((view.itemsOf marketId).map (·.canonicalUrlHash))) l d
  | .storedFingerprints marketId, r =>
    answered (r.isPerm ((view.itemsOf marketId).map fun o => (o.canonicalUrlHash, o.titleSimhash))) l d
  | .nearestItem marketId e, r => answered (isNearest lib (view.itemsOf marketId) e r) l d
  | .sourcesIn domains, r =>
    answered (r.isPerm (view.sources.filter fun s => domains.contains s.domain)) l d
  | .batchItems marketId batchId, r =>
    answered (r.isPerm ((view.itemsOf marketId).filter (·.batchId = some batchId)) && isOrdered r) l d
  | .getLog id, r => answered (r = view.logs.find? (·.id = id)) l d
  | .itemsIn ids, r => answered (r.isPerm (view.items.filter fun o => ids.contains o.id)) l d
  | .dueMarkets cutoff, r =>
    answered (r.isPerm ((view.markets.filter fun m =>
      m.status = .active && m.nextPollAt ≤ cutoff).map (·.id))) l d
  | .stuckDeliveries cutoff, r =>
    answered (r.isPerm ((view.logs.filter fun log =>
      (log.status = .pending || log.status = .failed) && log.createdAt ≤ cutoff &&
        view.isActive log.marketId).map (·.id))) l d
  | .stuckBatches cutoff, r =>
    answered (r.isPerm ((view.batches.filter fun b =>
      b.status = .opened && b.createdAt ≤ cutoff && view.isActive b.marketId).map
        fun b => (b.id, b.marketId))) l d
  | .insertCandidate row, r =>
    -- ON CONFLICT DO NOTHING: the answer tells whether the row went in
    if view.candidates.any fun c =>
        c.batchId = row.batchId && c.canonicalUrlHash = row.canonicalUrlHash then
      if r then none else some (l, d)
    else if r then some (l ++ [.insertCandidate row], d) else none
  | .countResolved batchId, r =>
    match view.batches.find? fun b => b.id = batchId && b.status = .opened with
    | none => answered (r = none) l d
    | some b =>
      let count := b.resolvedCount + 1
      let status := if b.expectedCount ≤ count then .closed else b.status
      if r = some status then some (l ++ [.setBatch batchId count status], d) else none
  | .closeOpen batchId, r =>
    match view.batches.find? fun b => b.id = batchId && b.status = .opened with
    | none => answered (r = false) l d
    | some b => if r then some (l ++ [.setBatch batchId b.resolvedCount .closed], d) else none
  | .insertItem row, r =>
    -- uq_news_market_url
    if view.items.any fun o =>
        o.marketId = row.marketId && o.canonicalUrlHash = row.canonicalUrlHash then
      answered r.isNone l d
    else
      match r with
      | none => none
      | some new =>
        if d.isFresh new.id then
          some (l ++ [.insertItem { row with id := new.id, discoveredAt := new.now }], d.draw new.id i)
        else none
  | .insertLog marketId batchId ids, new =>
    if d.isFresh new.id then
      some (l ++ [.insertLog ⟨new.id, marketId, batchId, ids, 0, .pending, none, none, false, [],
        new.now, none⟩], d.draw new.id i)
    else none
  | .insertBatch marketId expected watermark, new =>
    if d.isFresh new.id then
      some (l ++ [.insertBatch ⟨new.id, marketId, expected, 0, .opened, new.now⟩],
        { d.draw new.id i with cycles := (new.id, watermark) :: d.cycles })
    else none
  | .insertMarket row, r =>
    -- the flush and the commit of one `session.commit()`
    if view.markets.any (·.externalMarketId = row.externalMarketId) then answered (r = false) l d
    else if r then some ([], { d with db := (Write.insertMarket row).apply view }.release i)
    else none
  | .assign w, _ => some (l ++ [w], d)
  | .uuid4, x => if d.isFresh x then some (l, d.draw x i) else none
  | .utcnow, t => answered (t = d.clock) l d
  | .uniform bound, u => answered (-|bound| ≤ u && u ≤ |bound|) l d
  | .embedTexts texts, r => answered (r.all (·.length = texts.length)) l d
  | .encryptSecret _, _ => some (l, d)
  | .decryptSecret _, _ => some (l, d)
  | .generateJson _ _, _ => some (l, d)
  | .searchSources _ _, _ => some (l, d)
  | .embedText _, _ => some (l, d)
  | .scrapeUrl _ _ _, _ => some (l, d)
  | .sendWebhook url secret payload, answer =>
    some (l, { d with sent := d.sent ++ [.webhook i url secret payload answer] })
  | .sendTelegram _ chatId marketId news, answer =>
    some (l, { d with sent := d.sent ++ [.telegram i chatId marketId news answer] })
  | .enqueueJob id job deferUntil, accepted =>
    if d.redis.live id then answered (accepted = false) l d
    else if accepted then some (l, d.enqueue i ⟨id, job, deferUntil⟩) else none
  | .sadd marketId id, _ =>
    some (l, { d with redis := { d.redis with
      marketJobs := (d.redis.marketJobs.filter (· ≠ (marketId, id))) ++ [(marketId, id)] } })
  | .expire _, _ => some (l, d)
  | .smembers marketId, r =>
    answered (r.isPerm ((d.redis.marketJobs.filter (·.1 = marketId)).map (·.2))) l d
  | .zadd ids, _ =>
    -- the marks stay: a worker that consumes them is arq's part, in `arqSys`
    some (l, { d with redis := { d.redis with
      abortJobs := d.redis.abortJobs ++ ids.filter fun id => !d.redis.abortJobs.contains id } })
  | .delete marketId, _ =>
    some (l, { d with redis := { d.redis with
      marketJobs := d.redis.marketJobs.filter (·.1 ≠ marketId) } })

/-- The statements that end a transaction with what the session has staged. -/
def Stmt.commits : Stmt → Bool
  | .commit => true
  | .insertMarket _ => true
  | _ => false

theorem answered_eq {ok : Bool} {l l' : List Write} {d d' : Data}
    (h : answered ok l d = some (l', d')) : ok = true ∧ l' = l ∧ d' = d := by
  unfold answered at h
  split at h
  next hok =>
    obtain ⟨rfl, rfl⟩ := Prod.mk.inj (Option.some.inj h)
    exact ⟨hok, rfl, rfl⟩
  next => simp at h

/-- The write that a statement stages. -/
inductive Stmt.Writes : Stmt → Write → Prop
  | candidate (row : NewsBatchCandidate) : Writes (.insertCandidate row) (.insertCandidate row)
  | batch (b : Uuid) (n : Nat) (s : BatchStatus) : Writes (.countResolved b) (.setBatch b n s)
  | closed (b : Uuid) (n : Nat) (s : BatchStatus) : Writes (.closeOpen b) (.setBatch b n s)
  | item (row : NewsItem) (u : Uuid) (t : Time) :
      Writes (.insertItem row) (.insertItem { row with id := u, discoveredAt := t })
  | log (m b : Uuid) (ids : List Uuid) (u : Uuid) (t : Time) :
      Writes (.insertLog m b ids)
        (.insertLog ⟨u, m, b, ids, 0, .pending, none, none, false, [], t, none⟩)
  | opened (m : Uuid) (n : Nat) (w : Option Time) (u : Uuid) (t : Time) :
      Writes (.insertBatch m n w) (.insertBatch ⟨u, m, n, 0, .opened, t⟩)
  | assigned (w : Write) : Writes (.assign w) w

/-- The message that a statement sends. -/
inductive Stmt.Sends (i : JobId) : Stmt → Sent → Prop
  | webhook (url secret : String) (payload : WebhookPayload) (answer : ChannelAnswer) :
      Sends i (.sendWebhook url secret payload) (.webhook i url secret payload answer)
  | telegram (token chat : Option String) (market : String) (news : NewsPayload)
      (answer : ChannelAnswer) :
      Sends i (.sendTelegram token chat market news) (.telegram i chat market news answer)

/-- All that one statement can do. -/
inductive Outcome (i : JobId) (s : Stmt) (l : List Write) (d : Data) : List Write → Data → Prop
  | nothing : Outcome i s l d l d
  | locked (key : Int) : Outcome i s l d l { d with locks := (key, i) :: d.locks }
  | staged (w : Write) (writes : s.Writes w) : Outcome i s l d (l ++ [w]) d
  | drew (u : Uuid) (fresh : d.isFresh u = true) : Outcome i s l d l (d.draw u i)
  | drewStaged (u : Uuid) (w : Write) (fresh : d.isFresh u = true) (writes : s.Writes w) :
      Outcome i s l d (l ++ [w]) (d.draw u i)
  | drewBatch (u : Uuid) (row : NewsBatch) (w : Option Time) (fresh : d.isFresh u = true)
      (writes : s = .insertBatch row.marketId row.expectedCount w) (id : row.id = u) :
      Outcome i s l d (l ++ [.insertBatch row]) { d.draw u i with cycles := (u, w) :: d.cycles }
  | committed (h : s = .commit) : Outcome i s l d [] ({ d with db := d.db.after l }.release i)
  | marketInserted (row : Market) (h : s = .insertMarket row) :
      Outcome i s l d [] ({ d with db := (Write.insertMarket row).apply (d.db.after l) }.release i)
  | sent (x : Sent) (sends : s.Sends i x) : Outcome i s l d l { d with sent := d.sent ++ [x] }
  | enqueued (q : Queued) (h : s = .enqueueJob q.id q.job q.deferUntil)
      (free : d.redis.live q.id = false) : Outcome i s l d l (d.enqueue i q)
  | tracked (jobs : List (Uuid × JobId)) (aborts : List JobId) :
      Outcome i s l d l { d with redis := { d.redis with marketJobs := jobs, abortJobs := aborts } }

/-- The inversion of `exec`. -/
theorem exec_outcome {lib : PyLib} {i : JobId} {s : Stmt} {r : Answer s} {l l' : List Write}
    {d d' : Data} (h : exec lib i s r l d = some (l', d')) : Outcome i s l d l' d' := by
  have read : ∀ {ok : Bool}, answered ok l d = some (l', d') → Outcome i s l d l' d' := by
    intro ok hok
    obtain ⟨_, rfl, rfl⟩ := answered_eq hok
    exact .nothing
  cases s with
  | advisoryXactLock key =>
    simp only [exec] at h
    split at h
    next =>
      obtain ⟨rfl, rfl⟩ := Prod.mk.inj (Option.some.inj h)
      exact .locked key
    next => simp at h
  | commit =>
    obtain ⟨rfl, rfl⟩ := Prod.mk.inj (Option.some.inj h)
    exact .committed rfl
  | insertCandidate row =>
    simp only [exec] at h
    split at h
    next =>
      split at h
      next => simp at h
      next =>
        obtain ⟨rfl, rfl⟩ := Prod.mk.inj (Option.some.inj h)
        exact .nothing
    next =>
      split at h
      next =>
        obtain ⟨rfl, rfl⟩ := Prod.mk.inj (Option.some.inj h)
        exact .staged _ (.candidate row)
      next => simp at h
  | countResolved b =>
    simp only [exec] at h
    split at h
    next => exact read h
    next row _ =>
      generalize (if row.expectedCount ≤ row.resolvedCount + 1 then BatchStatus.closed
        else row.status) = status at h
      split at h
      next =>
        obtain ⟨rfl, rfl⟩ := Prod.mk.inj (Option.some.inj h)
        exact .staged _ (.batch b _ status)
      next => simp at h
  | closeOpen b =>
    simp only [exec] at h
    split at h
    next => exact read h
    next =>
      split at h
      next =>
        obtain ⟨rfl, rfl⟩ := Prod.mk.inj (Option.some.inj h)
        exact .staged _ (.closed b _ _)
      next => simp at h
  | insertItem row =>
    simp only [exec] at h
    split at h
    next => exact read h
    next =>
      cases r with
      | none => simp at h
      | some new =>
        dsimp only at h
        split at h
        next fresh =>
          obtain ⟨rfl, rfl⟩ := Prod.mk.inj (Option.some.inj h)
          exact .drewStaged new.id _ fresh (.item row new.id new.now)
        next => simp at h
  | insertLog m b ids =>
    simp only [exec] at h
    split at h
    next fresh =>
      obtain ⟨rfl, rfl⟩ := Prod.mk.inj (Option.some.inj h)
      exact .drewStaged r.id _ fresh (.log m b ids r.id r.now)
    next => simp at h
  | insertBatch m n w =>
    simp only [exec] at h
    split at h
    next fresh =>
      obtain ⟨rfl, rfl⟩ := Prod.mk.inj (Option.some.inj h)
      exact .drewBatch r.id ⟨r.id, m, n, 0, .opened, r.now⟩ w fresh rfl rfl
    next => simp at h
  | insertMarket row =>
    simp only [exec] at h
    split at h
    next => exact read h
    next =>
      split at h
      next =>
        obtain ⟨rfl, rfl⟩ := Prod.mk.inj (Option.some.inj h)
        exact .marketInserted row rfl
      next => simp at h
  | uuid4 =>
    simp only [exec] at h
    split at h
    next fresh =>
      obtain ⟨rfl, rfl⟩ := Prod.mk.inj (Option.some.inj h)
      exact .drew r fresh
    next => simp at h
  | assign w =>
    obtain ⟨rfl, rfl⟩ := Prod.mk.inj (Option.some.inj h)
    exact .staged w (.assigned w)
  | sendWebhook url secret payload =>
    obtain ⟨rfl, rfl⟩ := Prod.mk.inj (Option.some.inj h)
    exact .sent _ (.webhook url secret payload r)
  | sendTelegram token chat market news =>
    obtain ⟨rfl, rfl⟩ := Prod.mk.inj (Option.some.inj h)
    exact .sent _ (.telegram token chat market news r)
  | enqueueJob id job deferUntil =>
    simp only [exec] at h
    split at h
    next => exact read h
    next free =>
      split at h
      next =>
        obtain ⟨rfl, rfl⟩ := Prod.mk.inj (Option.some.inj h)
        exact .enqueued ⟨id, job, deferUntil⟩ rfl (by simpa using free)
      next => simp at h
  | sadd | zadd | delete =>
    obtain ⟨rfl, rfl⟩ := Prod.mk.inj (Option.some.inj h)
    exact .tracked _ _
  | encryptSecret | decryptSecret | generateJson | searchSources | embedText | scrapeUrl | expire =>
    obtain ⟨rfl, rfl⟩ := Prod.mk.inj (Option.some.inj h)
    exact .nothing
  | _ => exact read h

/-- Only a commit changes the committed rows. -/
theorem exec_db {lib : PyLib} {i : JobId} {s : Stmt} {r : Answer s} {l l' : List Write}
    {d d' : Data} (hs : s.commits = false) (h : exec lib i s r l d = some (l', d')) :
    d'.db = d.db := by
  cases exec_outcome h with
  | committed e | marketInserted _ e => simp [e, Stmt.commits] at hs
  | _ => rfl

end NewsNotifier
