import NewsNotifier.BatchDispatch

namespace NewsNotifier

open Interleaving

/-- The statements by which no item, batch, market row or attempt is written, and no message leaves. -/
def Stmt.still : Stmt → Prop
  | .insertItem _ | .insertBatch _ _ _ | .insertMarket _ | .sendWebhook _ _ _ | .sendTelegram _ _ _ _ => False
  | .assign (.insertFailure _) => True
  | .assign _ => False
  | _ => True

/-- The ids are those of the items that were read for a batch. -/
def Listed (h : List NewsSaid) (ids : List Uuid) : Prop :=
  ∃ m b items, ⟨.batchItems m b, items⟩ ∈ h ∧ ids = items.map (·.id)

/-- What the tasks of a paused market may still ask, after what was said. -/
def Rests (asks : List NewsSaid → Job → Prop) (h : List NewsSaid) : Stmt → Prop
  | .insertLog _ _ ids => Listed h ids
  | .enqueueJob _ job _ => asks h job
  | s => s.still

/-- A log of this market was written and committed under the id. -/
def Logged (m id : Uuid) (h : List NewsSaid) : Prop :=
  ∃ b ids new before after, new.id = id ∧ h = before ++ ⟨.insertLog m b ids, new⟩ :: after ∧
    ⟨.commit, ()⟩ ∈ after

/-- The statements that stage no log. -/
def Stmt.logless : Stmt → Prop
  | .insertLog _ _ _ | .assign (.insertLog _) => False
  | _ => True

/-- A job of another market, as the sweeps come to know of it. -/
def Elsewhere (m : Uuid) (h : List NewsSaid) : Job → Prop
  | .processMarket id => id ≠ m
  | .processCandidate _ _ _ => False
  | .deliverBatch id => (∃ before cutoff ids after, h = before ++ ⟨.stuckDeliveries cutoff, ids⟩ :: after ∧
      (∀ x ∈ before, x.1.logless) ∧ id ∈ ids) ∨ ∃ m', m' ≠ m ∧ Logged m' id h

/-- The market is read as paused, and a sweep selects nothing of it. -/
def readsPaused (m : Uuid) (s : Stmt) (r : Answer s) : Prop :=
  match s, r with
  | .getMarket id, some market => id = m → market.status ≠ .active
  | .dueMarkets _, ids => m ∉ ids
  | .stuckBatches _, rows => ∀ row ∈ rows, row.2 ≠ m
  | _, _ => True

/-- The log is one of the market. -/
def readsOwn (m logId : Uuid) (s : Stmt) (r : Answer s) : Prop :=
  match s, r with
  | .getLog id, some log => id = logId → log.marketId = m
  | _, _ => True

/-- The market is read by its id, and under the lock as paused. -/
def rereadsPaused (m : Uuid) (s : Stmt) (r : Answer s) : Prop :=
  match s, r with
  | .getMarket id, some market => market.id = id
  | .marketStatus id, status => id = m → status ≠ some .active
  | _, _ => True

/-- The reads with which a delivery guards itself. -/
def Stmt.peeks (logId : Uuid) : Stmt → Prop
  | .getLog id => id = logId
  | .getMarket _ => True
  | _ => False

section Programs

variable {asks : List NewsSaid → Job → Prop} {G : List NewsSaid → (s : Stmt) → Answer s → Prop} {lib : PyLib}
  {cfg : Settings} {m : Uuid} {α : Type}

/-- The program rests from here on. -/
abbrev Still (asks : List NewsSaid → Job → Prop) (G : List NewsSaid → (s : Stmt) → Answer s → Prop)
    (p : Program α) (h : List NewsSaid) : Prop :=
  p.Obeys (Monitor.history G (Rests asks)) (fun _ _ => True) (fun _ _ => True) h

theorem Still.bind {β : Type} {p : Program α} {f : α → Program β} {h : List NewsSaid} (first : Still asks G p h)
    (rest : ∀ a h, Still asks G (f a) h) : Still asks G (p.bind f) h :=
  (first.mono (fun h a _ => rest a h) fun _ _ h => h).bind

theorem enqueueDelivery_still (logId : Option Uuid) {h : List NewsSaid}
    (sends : ∀ id ∈ logId, asks h (.deliverBatch id)) : Still asks G (enqueueDelivery logId) h := by
  cases logId with
  | none => exact True.intro
  | some id => exact ⟨sends id rfl, fun _ _ => True.intro⟩

/-- A close writes its log for the items that it read. -/
theorem finalizeBatchDelivery_still (m b : Uuid) (h : List NewsSaid) :
    (finalizeBatchDelivery m b).Obeys (Monitor.history G (Rests asks))
      (fun h' logId => ∀ id ∈ logId, ∃ ids new before, new.id = id ∧ h' = before ++ [⟨.insertLog m b ids, new⟩])
      (fun _ _ => True) h := by
  refine ⟨True.intro, fun items _ => ?_⟩
  simp only [Prog.ret_bind]
  split
  next => exact fun id hid => absurd hid (Option.not_mem_none id)
  next =>
    have read : Listed (h ++ [⟨.batchItems m b, items⟩]) (items.map (·.id)) :=
      ⟨m, b, items, List.mem_append_right _ List.mem_cons_self, rfl⟩
    refine ⟨read, fun new _ => ?_⟩
    intro id hid
    obtain rfl := Option.mem_some_iff.mp hid
    exact ⟨_, new, _, rfl, rfl⟩

theorem committed_still (h : List NewsSaid) (a : α) :
    Still asks G (.stmt .commit fun _ => .ret a) h := ⟨True.intro, fun _ _ => True.intro⟩

theorem resolveBatchCandidate_still (m b : Uuid) (hash outcome : String) (h : List NewsSaid) :
    Still asks G (resolveBatchCandidate m b hash outcome none) h := by
  refine ⟨True.intro, fun _ _ => ⟨True.intro, fun inserted _ => ?_⟩⟩
  simp only [Prog.ret_bind]
  split
  next => exact committed_still _ none
  next =>
    refine ⟨True.intro, fun row _ => ?_⟩
    simp only [Prog.ret_bind]
    split
    next => exact committed_still _ none
    next => exact committed_still _ none
    next =>
      have closes : ∀ h, Still asks G (finalizeBatchDelivery m b) h :=
        fun h => (finalizeBatchDelivery_still m b h).mono (fun _ _ _ => True.intro) fun _ _ h => h
      exact (closes _).bind fun logId h' => committed_still h' logId

variable (sends : ∀ h id, asks h (.deliverBatch id))

include sends

theorem resolve_still (m : Uuid) (candidate : Candidate) (batchId : Option Uuid) (outcome : String)
    (h : List NewsSaid) : Still asks G (resolve m candidate batchId outcome none) h := by
  cases batchId with
  | none => exact committed_still h ()
  | some b =>
    exact (resolveBatchCandidate_still m b _ outcome h).bind fun logId h' =>
      enqueueDelivery_still logId fun id _ => sends h' id

theorem scrapeFailed_still (market : Market) (candidate : Candidate) (batchId : Option Uuid)
    (result : Option ScrapeResult) (h : List NewsSaid) :
    Still asks G (scrapeFailed lib market candidate batchId result) h := by
  unfold scrapeFailed
  split
  next => exact True.intro
  next =>
    dsimp only
    split
    next => exact ⟨True.intro, fun _ _ => resolve_still sends _ _ _ _ _⟩
    next => exact True.intro

/-- The re-check under the lock drops the candidate. -/
theorem dedupAndStore_still (candidate : Candidate) (batchId : Option Uuid) (scraped : ScrapeResult)
    (finalHash domain title : String) (extracted : Extracted) (embedding : Embedding) (h : List NewsSaid) :
    Still asks (fun _ => rereadsPaused m)
      (dedupAndStore lib cfg m candidate batchId scraped finalHash domain title extracted embedding) h := by
  refine ⟨True.intro, fun _ _ => ⟨True.intro, fun status paused => ?_⟩⟩
  have inactive : status ≠ some .active := paused rfl
  simp only [Prog.ret_bind]
  rw [if_pos inactive]
  exact resolve_still sends _ _ _ _ _

theorem extractAndStore_still {market : Market} (same : market.id = m) (candidate : Candidate) (batchId : Option Uuid)
    (scraped : ScrapeResult) (h : List NewsSaid) :
    Still asks (fun _ => rereadsPaused m) (extractAndStore lib cfg market candidate batchId scraped) h := by
  have reading : ∀ h s, Stmt.reading market.id s → Rests asks h s := by
    intro h s hs
    cases s <;> first | exact True.intro | exact False.elim hs
  have calls : ∀ {β : Type} {p : Program β}, p.Each (Stmt.reading market.id) (fun _ => True) → ∀ h,
      Still asks (fun _ => rereadsPaused m) p h := fun each => each.obeys reading
  unfold extractAndStore
  split
  next => exact True.intro
  next => exact True.intro
  next =>
    refine (calls (extractAndScore_does (fun _ h => h) _ _ _) h).bind fun extraction h => ?_
    split
    next => exact resolve_still sends _ _ _ _ _
    next => exact resolve_still sends _ _ _ _ _
    next =>
      split
      next => exact resolve_still sends _ _ _ _ _
      next =>
        split
        next =>
          refine (calls (embedSummary_does (fun _ h => h) _) h).bind fun embedding h => ?_
          split
          next => exact resolve_still sends _ _ _ _ _
          next =>
            subst same
            exact dedupAndStore_still sends _ _ _ _ _ _ _ _ h
        next => exact True.intro

/-- A candidate of a market that its re-check finds paused. -/
theorem processCandidate_rechecked (candidate : Candidate) (batchId : Option Uuid) (h : List NewsSaid) :
    Still asks (fun _ => rereadsPaused m) (processCandidate lib cfg m candidate batchId) h := by
  refine ⟨True.intro, fun found read => ?_⟩
  simp only [Prog.ret_bind]
  split
  next => exact resolve_still sends _ _ _ _ _
  next market =>
    have same : market.id = m := read
    split
    next => exact resolve_still sends _ _ _ _ _
    next =>
      refine ⟨True.intro, fun scraped _ => ?_⟩
      simp only [Prog.ret_bind]
      split
      next => exact True.intro
      next => exact scrapeFailed_still sends _ _ _ _ _
      next =>
        split
        next => exact scrapeFailed_still sends _ _ _ _ _
        next => exact extractAndStore_still sends same _ _ _ _

/-- A candidate of a market that its entry guard finds paused. -/
theorem processCandidate_guarded (candidate : Candidate) (batchId : Option Uuid) (h : List NewsSaid) :
    Still asks (fun _ => readsPaused m) (processCandidate lib cfg m candidate batchId) h := by
  refine ⟨True.intro, fun found paused => ?_⟩
  simp only [Prog.ret_bind]
  split
  next => exact resolve_still sends _ _ _ _ _
  next =>
    rw [if_pos (paused rfl)]
    exact resolve_still sends _ _ _ _ _

omit sends

/-- A poll of a paused market ends at its first read. -/
theorem processMarket_still : Still asks (fun h s r => h = [] → readsPaused m s r) (processMarket lib cfg m) [] := by
  refine ⟨True.intro, fun found paused => ?_⟩
  simp only [Prog.ret_bind]
  split
  next => exact True.intro
  next =>
    rw [if_pos (paused rfl rfl)]
    exact True.intro

/-- A delivery of a paused market ends at its guards. -/
theorem deliverBatch_peeks (logId : Uuid) : (deliverBatch cfg logId).Along
    (fun s r => readsOwn m logId s r ∧ readsPaused m s r) (Stmt.peeks logId) := by
  refine ⟨rfl, fun found own => ?_⟩
  simp only [Prog.ret_bind]
  split
  next => exact True.intro
  next log =>
    split
    next => exact True.intro
    next =>
      refine ⟨True.intro, fun market paused => ?_⟩
      simp only [Prog.ret_bind]
      split
      next => exact True.intro
      next =>
        rw [if_pos (paused.2 (own.1 rfl))]
        exact True.intro

theorem Along.still {R : (s : Stmt) → Answer s → Prop} {P : Stmt → Prop} {p : Program α} (along : p.Along R P)
    (rests : ∀ h s, P s → Rests asks h s) (h : List NewsSaid) : Still asks (fun _ => R) p h := by
  induction p generalizing h with
  | ret a => exact True.intro
  | raise e => exact True.intro
  | stmt s next ih => exact ⟨rests h s along.1, fun r given => ih r (along.2 r given) _⟩

end Programs

section Sweeps

variable {m : Uuid}

theorem enqueueDueMarkets_still (h : List NewsSaid) :
    Still (Elsewhere m) (fun _ => readsPaused m) enqueueDueMarkets h := by
  refine ⟨True.intro, fun _ _ => ⟨True.intro, fun marketIds others => ⟨True.intro, fun now _ => ?_⟩⟩⟩
  have start : ∀ id ∈ marketIds, id ≠ m := by
    intro id mem same
    exact others (same ▸ mem)
  refine (Prog.Obeys.forEach (K := fun rest _ => ∀ id ∈ rest, id ≠ m) ?_ marketIds start).mono
    (fun _ _ _ => True.intro) fun _ _ h => h
  intro id rest h all
  refine ⟨all id List.mem_cons_self, fun _ _ => ?_⟩
  exact fun id' mem => all id' (List.mem_cons_of_mem _ mem)

theorem enqueueStuckDeliveries_still : Still (Elsewhere m) (fun _ => readsPaused m) enqueueStuckDeliveries [] := by
  refine ⟨True.intro, fun now _ => ⟨True.intro, fun logIds _ => ?_⟩⟩
  let K : List Uuid → List NewsSaid → Prop := fun rest h => ∃ before cutoff ids after,
    h = before ++ ⟨.stuckDeliveries cutoff, ids⟩ :: after ∧ (∀ x ∈ before, x.1.logless) ∧ ∀ id ∈ rest, id ∈ ids
  have start : K logIds ([⟨.utcnow, now⟩] ++ [⟨.stuckDeliveries (now - stuckDeliveryThreshold), logIds⟩]) := by
    refine ⟨[⟨.utcnow, now⟩], _, logIds, [], rfl, fun x hx => ?_, fun _ mem => mem⟩
    obtain rfl := List.mem_singleton.mp hx
    exact True.intro
  refine (Prog.Obeys.forEach (K := K) ?_ logIds start).mono (fun _ _ _ => True.intro) fun _ _ h => h
  rintro id rest h ⟨before, cutoff, ids, after, rfl, quiet, all⟩
  refine ⟨.inl ⟨before, cutoff, ids, after, rfl, quiet, all id List.mem_cons_self⟩, fun _ _ => ?_⟩
  exact ⟨before, cutoff, ids, _, List.append_assoc _ _ _, quiet, fun id' mem => all id' (List.mem_cons_of_mem _ mem)⟩

theorem forceCloseBatch_still {asks : List NewsSaid → Job → Prop} {G : List NewsSaid → (s : Stmt) → Answer s → Prop}
    (m' b : Uuid) (h : List NewsSaid) : (forceCloseBatch m' b).Obeys (Monitor.history G (Rests asks))
      (fun h' logId => ∀ id ∈ logId, Logged m' id h') (fun _ _ => True) h := by
  refine ⟨True.intro, fun _ _ => ⟨True.intro, fun row _ => ?_⟩⟩
  simp only [Prog.ret_bind]
  split
  next => exact ⟨True.intro, fun _ _ id hid => absurd hid (Option.not_mem_none id)⟩
  next =>
    refine Prog.Obeys.bind ((finalizeBatchDelivery_still m' b _).mono (fun h' logId logs => ?_) fun _ _ h => h)
    refine ⟨True.intro, fun _ _ id hid => ?_⟩
    obtain ⟨ids, new, before, same, rfl⟩ := logs id hid
    exact ⟨b, ids, new, before, [⟨.commit, ()⟩], same, List.append_assoc _ _ _, List.mem_cons_self⟩

theorem enqueueStuckBatches_still (h : List NewsSaid) :
    Still (Elsewhere m) (fun _ => readsPaused m) enqueueStuckBatches h := by
  refine ⟨True.intro, fun now _ => ⟨True.intro, fun rows others => ?_⟩⟩
  have start : ∀ row ∈ rows, row.2 ≠ m := others
  refine (Prog.Obeys.forEach (K := fun rest _ => ∀ row ∈ rest, row.2 ≠ m) ?_ rows start).mono
    (fun _ _ _ => True.intro) fun _ _ h => h
  intro row rest h all
  refine Prog.Obeys.bind ((forceCloseBatch_still row.2 row.1 h).mono (fun h' logId logs => ?_) fun _ _ h => h)
  have sends : ∀ id ∈ logId, Elsewhere m h' (.deliverBatch id) :=
    fun id hid => .inr ⟨row.2, all row List.mem_cons_self, logs id hid⟩
  exact (enqueueDelivery_still logId sends).mono (fun _ _ _ row' mem => all row' (List.mem_cons_of_mem _ mem))
    fun _ _ h => h

end Sweeps

end NewsNotifier
