import NewsNotifier.BatchDispatch
import NewsNotifier.ExecutionOrigins

namespace NewsNotifier

open Interleaving

/-- The session has read the market. -/
def Found (m : Uuid) (h : List NewsSaid) : Prop :=
  ∃ id market, ⟨.getMarket id, some market⟩ ∈ h ∧ market.id = m

/-- The session has inserted the item of this id. -/
def Inserts (id : Uuid) (o : NewsItem) (h : List NewsSaid) : Prop :=
  ∃ new : Inserted, ⟨.insertItem o, some new⟩ ∈ h ∧ new.id = id

/-- The ids of a log are those of the items gathered for its batch, or of one own item. -/
def Lines (m b : Uuid) (ids : List Uuid) (h : List NewsSaid) : Prop :=
  (∃ items : List NewsItem, ⟨.batchItems m b, items⟩ ∈ h ∧ items ≠ [] ∧ ids = items.map (·.id)) ∨
    ∃ id o, Inserts id o h ∧ o.marketId = m ∧ ids = [id]

/-- A row that is inserted refers to rows that the session has read or inserted itself. -/
def Refers (h : List NewsSaid) : Stmt → Prop
  | .insertBatch m _ _ => Found m h
  | .insertItem row => Found row.marketId h
  | .insertCandidate row => ∀ id ∈ row.newsItemId, ∃ o, Inserts id o h ∧ o.batchId = some row.batchId
  | .insertLog m b ids => Lines m b ids h
  | .assign (.insertFailure row) => Found row.marketId h
  | .assign (.setBatch _ _ _) | .assign (.setMarket _ _) | .assign (.setLog _ _) | .assign (.setDelivered _) => True
  | .assign _ => False
  | _ => True

/-- The statements that insert no row, a market apart. -/
def Stmt.rowless : Stmt → Prop
  | .insertBatch _ _ _ | .insertItem _ | .insertCandidate _ | .insertLog _ _ _ => False
  | .assign (.setBatch _ _ _) | .assign (.setMarket _ _) | .assign (.setLog _ _) | .assign (.setDelivered _) => True
  | .assign _ => False
  | _ => True

theorem Stmt.rowless.refers {s : Stmt} (hs : s.rowless) {h : List NewsSaid} : Refers h s := by
  unfold Stmt.rowless at hs
  unfold Refers
  split at hs <;> simp_all

theorem Stmt.reading.rowless {m : Uuid} {s : Stmt} (h : s.reading m) : s.rowless := by
  cases s <;> first | exact True.intro | exact h.elim

theorem Found.mono {m : Uuid} {h more : List NewsSaid} (found : Found m h) (sub : h ⊆ more) : Found m more := by
  obtain ⟨id, market, said, same⟩ := found
  exact ⟨id, market, sub said, same⟩

theorem Inserts.mono {id : Uuid} {o : NewsItem} {h more : List NewsSaid} (stored : Inserts id o h) (sub : h ⊆ more) :
    Inserts id o more := by
  obtain ⟨new, said, same⟩ := stored
  exact ⟨new, sub said, same⟩

section Rules

variable {α : Type} {known : List NewsSaid}

/-- A program that refers to known rows only. -/
abbrev Refer (known : List NewsSaid) (p : Program α) : Prop := p.Knowing Refers known

theorem refer_stmt {s : Stmt} {next : Answer s → Program α} (plain : s.rowless)
    (rest : ∀ r, Refer known (next r)) : Refer known (.stmt s next) :=
  .stmt (fun _ _ => plain.refers) fun r => (rest r).mono (List.subset_cons_self _ _)

theorem refer_each {p : Program α} {F : Raised → Prop} (each : p.Each Stmt.rowless F) : Refer known p :=
  .of_each each fun _ _ hs => hs.refers

end Rules

section Batching

variable {known : List NewsSaid} {m : Uuid} {candidate : Candidate} {batchId : Option Uuid} {item : Option Uuid}

theorem enqueueDelivery_refers (logId : Option Uuid) : Refer known (enqueueDelivery logId) :=
  refer_each (F := fun _ => True) (enqueueDelivery_does (fun _ => True.intro) logId)

theorem finalizeBatchDelivery_refers (b : Uuid) : Refer known (finalizeBatchDelivery m b) := by
  refine .stmt (fun _ _ => True.intro) fun items => ?_
  simp only [Prog.ret_bind]
  split
  next => exact .ret none
  next some =>
    refine .stmt (fun h sub => .inl ⟨items, sub List.mem_cons_self, some, rfl⟩) fun log => ?_
    exact .ret (Option.some log.id)

theorem createSoloDelivery_refers {id : Uuid} (own : ∃ o, Inserts id o known ∧ o.marketId = m) :
    Refer known (createSoloDelivery m id) := by
  obtain ⟨o, stored, market⟩ := own
  refine refer_stmt True.intro fun b => .stmt (fun h sub => .inr ⟨id, o, stored.mono sub, market, rfl⟩) fun log => ?_
  exact .ret log.id

/-- The item that a resolution names is one that its session stored for it. -/
abbrev Named (m : Uuid) (batchId item : Option Uuid) (known : List NewsSaid) : Prop :=
  ∀ id ∈ item, ∃ o, Inserts id o known ∧ o.marketId = m ∧ o.batchId = batchId

theorem named_none : Named m batchId none known := fun _ mem => absurd mem (Option.not_mem_none _)

theorem resolveBatchCandidate_refers {b : Uuid} (named : Named m (some b) item known) (h outcome : String) :
    Refer known (resolveBatchCandidate m b h outcome item) := by
  have slot : ∀ more, known ⊆ more → Refers more (.insertCandidate ⟨b, h, outcome, item⟩) := by
    intro more sub id mem
    obtain ⟨o, stored, _, batch⟩ := named id mem
    exact ⟨o, stored.mono sub, batch⟩
  refine refer_stmt True.intro fun _ => .stmt slot fun inserted => ?_
  refine Prog.Knowing.mono ?_ (List.subset_cons_self _ known)
  simp only [Prog.ret_bind]
  split
  next => exact refer_stmt True.intro fun _ => .ret none
  next =>
    refine refer_stmt True.intro fun row => ?_
    simp only [Prog.ret_bind]
    split
    next =>
      refine refer_stmt True.intro fun _ => ?_
      cases item with
      | none => exact .ret none
      | some id =>
        obtain ⟨o, stored, market, _⟩ := named id rfl
        exact (createSoloDelivery_refers ⟨o, stored, market⟩).bind fun logId =>
          refer_stmt True.intro fun _ => .ret (some logId)
    next => exact refer_stmt True.intro fun _ => .ret none
    next => exact (finalizeBatchDelivery_refers b).bind fun logId => refer_stmt True.intro fun _ => .ret logId

theorem forceCloseBatch_refers (b : Uuid) : Refer known (forceCloseBatch m b) := by
  refine refer_stmt True.intro fun _ => refer_stmt True.intro fun row => ?_
  simp only [Prog.ret_bind]
  split
  next => exact refer_stmt True.intro fun _ => .ret none
  next => exact (finalizeBatchDelivery_refers b).bind fun logId => refer_stmt True.intro fun _ => .ret logId

theorem resolve_refers (named : Named m batchId item known) (outcome : String) :
    Refer known (resolve m candidate batchId outcome item) := by
  cases batchId with
  | some b => exact (resolveBatchCandidate_refers named _ _).bind enqueueDelivery_refers
  | none =>
    cases item with
    | none => exact refer_stmt True.intro fun _ => .ret ()
    | some id =>
      obtain ⟨o, stored, market, _⟩ := named id rfl
      exact (createSoloDelivery_refers ⟨o, stored, market⟩).bind fun logId =>
        refer_stmt True.intro fun _ => enqueueDelivery_refers (some logId)

theorem drop_refers (outcome : String) : Refer known (resolve m candidate batchId outcome none) :=
  resolve_refers named_none outcome

end Batching

section Candidate

variable {known : List NewsSaid} {lib : PyLib} {cfg : Settings} {market : Market} {candidate : Candidate}
  {batchId : Option Uuid} {scraped : ScrapeResult}

theorem storeItem_refers {m : Uuid} (found : Found m known) (finalHash domain title : String) (extracted : Extracted)
    (embedding : Embedding) :
    Refer known (storeItem lib m candidate batchId scraped finalHash domain title extracted embedding) := by
  have scores : ∀ signal, Refer known (computeCredibility domain signal) := fun signal =>
    refer_each (F := fun _ => True)
      (computeCredibility_does True.intro (fun _ hs => Stmt.reading.rowless (m := m) hs) _ signal)
  refine (scores _).bind fun score => ?_
  split
  next => exact .raise _
  next =>
    split
    next => exact .raise _
    next =>
      split
      next =>
        split
        next =>
          refine .stmt (fun h sub => found.mono sub) fun row => ?_
          cases row with
          | none => exact .raise _
          | some new =>
            show Refer _ (resolve m candidate batchId "stored" (some new.id))
            refine resolve_refers (fun id mem => ?_) "stored"
            obtain rfl := Option.mem_some_iff.mp mem
            exact ⟨_, ⟨new, List.mem_cons_self, rfl⟩, rfl, rfl⟩
        next => exact .raise _
      next => exact .raise _

theorem dedupAndStore_refers {m : Uuid} (found : Found m known) (finalHash domain title : String)
    (extracted : Extracted)
    (embedding : Embedding) :
    Refer known (dedupAndStore lib cfg m candidate batchId scraped finalHash domain title extracted embedding) := by
  refine refer_stmt True.intro fun _ => refer_stmt True.intro fun status => ?_
  simp only [Prog.ret_bind]
  split
  next => exact drop_refers _
  next =>
    refine refer_stmt True.intro fun stored => ?_
    simp only [Prog.ret_bind]
    split
    next => exact drop_refers _
    next =>
      split
      next => exact drop_refers _
      next =>
        refine refer_stmt True.intro fun row => ?_
        simp only [Prog.ret_bind]
        split
        next => exact .raise _
        next => exact drop_refers _
        next => exact storeItem_refers found _ _ _ _ _

theorem extractAndStore_refers (found : Found market.id known) :
    Refer known (extractAndStore lib cfg market candidate batchId scraped) := by
  have reads : ∀ s, Stmt.reading market.id s → s.rowless := fun _ hs => hs.rowless
  unfold extractAndStore
  split
  next => exact .raise _
  next => exact .raise _
  next =>
    refine (refer_each (F := fun _ => True) (extractAndScore_does reads _ _ _)).bind fun extraction => ?_
    split
    next => exact drop_refers _
    next => exact drop_refers _
    next =>
      split
      next => exact drop_refers _
      next =>
        split
        next =>
          refine (refer_each (F := fun _ => True) (embedSummary_does reads _)).bind fun embedding => ?_
          split
          next => exact drop_refers _
          next => exact dedupAndStore_refers found _ _ _ _ _
        next => exact .raise _

theorem scrapeFailed_refers (found : Found market.id known) (result : Option ScrapeResult) :
    Refer known (scrapeFailed lib market candidate batchId result) := by
  unfold scrapeFailed
  split
  next => exact .raise _
  next =>
    dsimp only
    split
    next =>
      refine .stmt (fun h sub => found.mono sub) fun _ => ?_
      exact drop_refers _
    next => exact .raise _

theorem processCandidate_refers (m : Uuid) : Refer known (processCandidate lib cfg m candidate batchId) := by
  refine .stmt (fun _ _ => True.intro) fun read => ?_
  simp only [Prog.ret_bind]
  split
  next => exact drop_refers _
  next _ market =>
    have found : Found market.id (⟨.getMarket m, some market⟩ :: known) := ⟨m, market, List.mem_cons_self, rfl⟩
    split
    next => exact drop_refers _
    next =>
      refine refer_stmt True.intro fun scraped => ?_
      simp only [Prog.ret_bind]
      split
      next => exact .raise _
      next => exact scrapeFailed_refers found none
      next =>
        split
        next => exact scrapeFailed_refers found _
        next => exact extractAndStore_refers found

end Candidate

section Tasks

variable {known : List NewsSaid} {lib : PyLib} {cfg : Settings} {candidate : Candidate} {batchId : Option Uuid}

theorem dispatchCandidate_refers (m : Uuid) : Refer known (dispatchCandidate m batchId candidate) := by
  refine refer_stmt True.intro fun accepted => ?_
  simp only [Prog.ret_bind, Prog.bind_eq]
  have registers : (registerMarketJob m (JobId.processCandidate m candidate.canonicalUrlHash)).Each
      Stmt.rowless fun _ => True :=
    registerMarketJob_does (fun _ => True.intro) True.intro _
  refine (refer_each registers).bind fun _ => ?_
  cases batchId with
  | none => exact .ret ()
  | some b =>
    dsimp only
    split
    next => exact .ret ()
    next => exact (resolveBatchCandidate_refers named_none _ _).bind enqueueDelivery_refers

theorem dispatchCycle_refers (m : Uuid) (next : Time) (selected : List Candidate) :
    Refer known (dispatchCycle m next batchId selected) :=
  refer_stmt True.intro fun _ => .forEach fun _ _ => dispatchCandidate_refers m

theorem processMarket_refers (m : Uuid) : Refer known (processMarket lib cfg m) := by
  refine .stmt (fun _ _ => True.intro) fun read => ?_
  simp only [Prog.ret_bind]
  split
  next => exact .ret ()
  next _ market =>
    have found : Found market.id (⟨.getMarket m, some market⟩ :: known) := ⟨m, market, List.mem_cons_self, rfl⟩
    have assigned : ∀ {known} change, Refer known (assignMarket market change) :=
      fun change => refer_each (F := fun _ => True) (assignMarket_does market True.intro)
    split
    next => exact .ret ()
    next =>
      have selects : (selectCandidates lib cfg market).Each Stmt.rowless fun _ => True :=
        selectCandidates_does market (fun _ => True.intro) fun _ hs => hs.rowless
      refine (refer_each selects).bind fun selected => ?_
      refine refer_stmt True.intro fun lastPolledAt => refer_stmt True.intro fun u => ?_
      refine (assigned _).bind fun _ => (assigned _).bind fun _ => ?_
      split
      next => exact refer_stmt True.intro fun _ => dispatchCycle_refers _ _ _
      next =>
        refine .stmt (fun h sub => found.mono sub) fun _ => ?_
        exact refer_stmt True.intro fun _ => dispatchCycle_refers _ _ _

theorem enqueueStuckBatches_refers : Refer known enqueueStuckBatches := by
  refine refer_stmt True.intro fun now => refer_stmt True.intro fun rows => ?_
  exact .forEach fun row _ => (forceCloseBatch_refers row.1).bind enqueueDelivery_refers

theorem deliverBatch_refers (logId : Uuid) : Refer known (deliverBatch cfg logId) := by
  have does : ∀ s : Stmt, s.delivering → s.rowless := by
    intro s h
    unfold Stmt.delivering at h
    split at h <;> first | exact True.intro | exact h.elim
  exact refer_each (F := fun _ => True)
    (deliverBatch_does does (fun _ => True.intro) True.intro (fun _ _ _ => True.intro) logId)

theorem rowless_serves : Serves Stmt.rowless where
  reads _ _ hs := hs.rowless
  commits := True.intro
  sets _ _ _ := True.intro
  aborts _ := True.intro
  deletes _ := True.intro

/-- The tasks that the service runs: its jobs, its requests and its crons. -/
def Task.isService : Task → Bool
  | .resolveBatchCandidate _ _ _ _ _ | .forceCloseBatch _ _ | .openBatch _ _ => false
  | _ => true

theorem taskProgram_refers {task : Task} (service : task.isService = true) :
    Refer known (taskProgram lib cfg task) := by
  cases task with
  | job j =>
    cases j with
    | processMarket m => exact processMarket_refers m
    | processCandidate m candidate batchId => exact processCandidate_refers m
    | deliverBatch logId => exact deliverBatch_refers logId
  | subscribe body =>
    exact refer_each (subscribe_does rowless_serves (fun _ _ => True.intro) True.intro
      (fun _ _ => True.intro) (fun _ _ => True.intro) body)
  | unsubscribe marketId => exact refer_each (unsubscribe_does rowless_serves (fun _ _ => True.intro) marketId)
  | updateMarket marketId body =>
    exact refer_each (updateMarket_does rowless_serves (fun _ _ => True.intro)
      (fun _ _ => True.intro) marketId body)
  | enqueueDueMarkets =>
    exact refer_each (F := fun _ => True) (enqueueDueMarkets_does (fun _ _ hs => hs.rowless) fun _ _ => True.intro)
  | enqueueStuckDeliveries =>
    refine refer_stmt True.intro fun now => refer_stmt True.intro fun logIds => ?_
    exact .forEach fun logId _ => enqueueDelivery_refers (some logId)
  | enqueueStuckBatches => exact enqueueStuckBatches_refers
  | _ => simp [Task.isService] at service

end Tasks

end NewsNotifier
