import NewsNotifier.CommittedRows
import NewsNotifier.StoredArticles
import NewsNotifier.ResolvedSlots
import NewsNotifier.CycleChronology

namespace NewsNotifier

open Interleaving

/-- An article of the market is stored under this hash. -/
def Database.hasArticle (db : Database) (m : Uuid) (h : String) : Bool :=
  db.items.any fun o => o.marketId = m && o.canonicalUrlHash = h

theorem hasArticle_tables {db : Database} {m : Uuid} {h : String} : db.hasArticle m h = true ↔
    ∃ o ∈ db.tables.items, o.marketId = m ∧ o.canonicalUrlHash = h := by
  simp [Database.hasArticle, Database.tables, NewsItem.deliver]

theorem hasArticle_after {db : Database} {m : Uuid} {h : String} (old : db.hasArticle m h = true)
    (l : List Write) : (db.after l).hasArticle m h = true := by
  obtain ⟨o, ho, key⟩ := hasArticle_tables.mp old
  refine hasArticle_tables.mpr ⟨o, ?_, key⟩
  rw [after_items]
  exact List.mem_append_left _ ho

theorem hasArticle_insert {l : List Write} {o : NewsItem} (mem : .insertItem o ∈ l) (db : Database) :
    (db.after l).hasArticle o.marketId o.canonicalUrlHash = true := by
  refine hasArticle_tables.mpr ⟨o.deliver, ?_, rfl, rfl⟩
  rw [after_items]
  exact List.mem_append_right _ (List.mem_filterMap.mpr ⟨_, mem, rfl⟩)

theorem hasArticle_steps {lib : PyLib} {admits : Admits} {w w' : NewsWorld}
    (h : Steps (newsSys lib admits) w w') {m : Uuid} {k : String}
    (old : w.data.db.hasArticle m k = true) : w'.data.db.hasArticle m k = true := by
  obtain ⟨l, e⟩ := steps_after h
  exact e ▸ hasArticle_after old l

/-- The row was inserted, and a commit followed. -/
def Stores (tr : List NewsEvent) (row : NewsItem) : Prop :=
  ∃ before after new, tr = before ++ after ∧ Took before (.insertItem row) (some new) ∧ Took after .commit ()

section Stored

variable {lib : PyLib} {admits : Admits} {i : JobId} {job : Task × Settings} {w w' : NewsWorld}
  {tr : List NewsEvent} {row : NewsItem}

/-- A stored article is committed. -/
theorem stored_committed (h : Execution (newsSys lib admits) i job w tr w') (stores : Stores tr row) :
    w'.data.db.hasArticle row.marketId row.canonicalUrlHash = true := by
  obtain ⟨before, after, new, rfl, ⟨l, d, inserted⟩, l', d', commit⟩ := stores
  obtain ⟨earlier, between, rfl⟩ := List.append_of_mem inserted
  rw [List.append_assoc, List.cons_append] at h
  obtain ⟨_, _, l₁, d₁, _, _, _, hx, _⟩ := h.split rfl
  have hx : exec lib i (.insertItem row) (some new) l d = some (l₁, d₁) := hx
  have staged : Write.insertItem { row with id := new.id, discoveredAt := new.now } ∈ l₁ := by
    simp only [exec] at hx
    split at hx
    next => exact absurd (answered_eq hx).1 (by simp)
    next =>
      split at hx
      next =>
        obtain ⟨rfl, _⟩ := Prod.mk.inj (Option.some.inj hx)
        exact List.mem_append_right _ List.mem_cons_self
      next => simp at hx
  obtain ⟨v, db, ws, _, later, mem, committed⟩ := staged_committed h rfl hx staged
    ⟨_, List.mem_append_right _ commit, rfl⟩
  refine hasArticle_steps later ?_
  rw [committed]
  exact hasArticle_insert mem db

end Stored

/-- What the pages that the candidate's url leads to may hash to. -/
def pagesHash (lib : PyLib) (h : Except PyError String) (s : Stmt) (r : Answer s) : Prop :=
  match s, r with
  | .getMarket id, some market => market.id = id
  | .scrapeUrl _ _ _, .ok (some page) => urlHash lib page.finalUrl = h
  | _, _ => True

/-- A row of this market under this hash, if any. -/
def Stmt.storesAs (m : Uuid) (h : Except PyError String) : Stmt → Prop
  | .insertItem row => row.marketId = m ∧ h = .ok row.canonicalUrlHash
  | _ => True

theorem Stmt.reading.storesAs {m : Uuid} {s : Stmt} (hs : s.reading m) {m' : Uuid} {h : Except PyError String} :
    s.storesAs m' h := by
  cases s <;> first | exact True.intro | exact hs.elim

theorem Stmt.batching.storesAs {m : Uuid} {s : Stmt} (hs : s.batching m) {m' : Uuid} {h : Except PyError String} :
    s.storesAs m' h := by
  cases s <;> first | exact True.intro | exact hs.elim

theorem processCandidate_storesAs {lib : PyLib} {cfg : Settings} {h : Except PyError String} (m : Uuid)
    (c : Candidate) (b : Option Uuid) :
    (processCandidate lib cfg m c b).Along (pagesHash lib h) (Stmt.storesAs m h) := by
  have drop : ∀ m' outcome, (resolve m' c b outcome none).Along (pagesHash lib h) (Stmt.storesAs m h) :=
    fun m' outcome => (resolve_does (F := fun _ => True) (fun _ hs => Stmt.batching.storesAs (m := m') hs)
      (fun _ _ _ _ => True.intro) outcome none).along
  have failed : ∀ (market : Market) result, (scrapeFailed lib market c b result).Along (pagesHash lib h)
      (Stmt.storesAs m h) := fun market result =>
    (scrapeFailed_does (F := fun _ => True) (fun _ => True.intro)
      (fun _ hs => Stmt.batching.storesAs (m := market.id) hs) (fun _ _ _ _ => True.intro)
      (fun _ => True.intro) result).along
  refine ⟨True.intro, fun found known => ?_⟩
  cases found with
  | none => exact drop m _
  | some market =>
    obtain rfl : market.id = m := known
    simp only [Prog.ret_bind]
    split
    next => exact drop market.id _
    next =>
      refine ⟨True.intro, fun scraped hash => ?_⟩
      cases scraped with
      | error => exact True.intro
      | ok result =>
        cases result with
        | none => exact failed market none
        | some page =>
          have hash : urlHash lib page.finalUrl = h := hash
          simp only [Prog.ret_bind]
          split
          next => exact failed market (some page)
          next =>
            refine (extractAndStore_does (F := fun _ => True) (fun _ => True.intro)
              (fun _ hs => Stmt.reading.storesAs (m := market.id) hs)
              (fun _ hs => Stmt.batching.storesAs (m := market.id) hs) (fun _ _ _ _ => True.intro)
              fun row hr key => ?_).along
            exact ⟨hr.market, hash.symm.trans key⟩

/-- The stored hashes of market `m` include `h`. -/
def knownArticle (m : Uuid) (h : String) (s : Stmt) (r : Answer s) : Prop :=
  match s, r with
  | .getMarket id, some market => market.id = id
  | .urlHashes id, hashes => id = m → h ∈ hashes
  | _, _ => True

/-- No candidate of market `m` is dispatched under `h`. -/
def Stmt.sparesArticle (m : Uuid) (h : String) : Stmt → Prop
  | .enqueueJob _ (.processCandidate id c _) _ => id = m → c.canonicalUrlHash ≠ h
  | _ => True

section Cycle

variable {lib : PyLib} {cfg : Settings} {h : String}

theorem selectCandidates_spares (market : Market) : (selectCandidates lib cfg market).Obeys
    (Monitor.along (knownArticle market.id h) (Stmt.sparesArticle market.id h))
    (fun _ selected => ∀ c ∈ selected, c.canonicalUrlHash ≠ h) (fun _ _ => True) () := by
  have queries : (generateQueriesCall lib market.description).Along (knownArticle market.id h)
      (Stmt.sparesArticle market.id h) :=
    Prog.Each.along (E := fun _ => True) ⟨True.intro, fun _ => ofExcept_does (fun _ => True.intro) _⟩
  refine Prog.Obeys.bind (queries.mono (fun _ found _ => ?_) fun _ _ h => h)
  have search : (searchAllSources lib found cfg.searchResultsPerSource).Along (knownArticle market.id h)
      (Stmt.sparesArticle market.id h) :=
    Prog.Each.along (E := fun _ => True) ⟨True.intro, fun _ => ofExcept_does (fun _ => True.intro) _⟩
  refine Prog.Obeys.bind (search.mono (fun _ candidates _ => ?_) fun _ _ h => h)
  refine ⟨True.intro, fun hashes known => ⟨True.intro, fun now _ => ?_⟩⟩
  have known : h ∈ hashes := known rfl
  simp only [Prog.ret_bind]
  refine Prog.Obeys.bind (ofExcept_obeys fun recent recency => ?_)
  refine Prog.Obeys.bind (ofExcept_obeys fun kept stale => ?_)
  have fresh : ∀ c ∈ kept, c.canonicalUrlHash ≠ h := by
    rintro c hc rfl
    have mem := (filterByRecency_sublist recency).subset ((filterOlderThanWatermark_sublist stale).subset hc)
    simp [known] at mem
  unfold selectRelevantCandidates
  split
  next => exact fresh
  next =>
    refine ⟨True.intro, fun vectors _ => ?_⟩
    simp only [Prog.ret_bind]
    split
    next => exact True.intro
    next => exact True.intro
    next => exact fun c hc => fresh c (rankBySimilarity_subset hc)

theorem Stmt.batching.spares {m : Uuid} {s : Stmt} (hs : s.batching m) {m' : Uuid} :
    s.sparesArticle m' h := by
  unfold Stmt.batching at hs
  split at hs <;> first | exact True.intro | exact hs.elim

theorem dispatchCycle_spares {m : Uuid} (next : Time) (b : Option Uuid) {selected : List Candidate}
    (other : ∀ c ∈ selected, c.canonicalUrlHash ≠ h) :
    (dispatchCycle m next b selected).Along (knownArticle m h) (Stmt.sparesArticle m h) :=
  (dispatchCycle_does (F := fun _ => True) (fun _ hs => hs.spares) (fun _ => True.intro) True.intro next
    (fun _ => True.intro) b selected (fun c hc _ => other c hc) fun _ _ _ _ _ _ => True.intro).along

theorem processMarket_spares (m : Uuid) :
    (processMarket lib cfg m).Along (knownArticle m h) (Stmt.sparesArticle m h) := by
  refine ⟨True.intro, fun found known => ?_⟩
  cases found with
  | none => exact True.intro
  | some market =>
    obtain rfl : market.id = m := known
    simp only [Prog.ret_bind]
    split
    next => exact True.intro
    next =>
      refine (Prog.Obeys.mono (selectCandidates_spares market) (fun _ selected other => ?_) fun _ _ h => h).bind
      have assigned : ∀ {change : MarketChange}, (assignMarket market change).Along
          (knownArticle market.id h) (Stmt.sparesArticle market.id h) :=
        (assignMarket_does (F := fun _ => True) market True.intro).along
      refine ⟨True.intro, fun lastPolledAt _ => ⟨True.intro, fun u _ => ?_⟩⟩
      refine (assigned.mono (fun _ _ _ => ?_) fun _ _ h => h).bind
      refine (assigned.mono (fun _ _ _ => ?_) fun _ _ h => h).bind
      split
      next => exact ⟨True.intro, fun _ _ => dispatchCycle_spares _ none other⟩
      next =>
        exact ⟨True.intro, fun new _ => ⟨True.intro, fun _ _ => dispatchCycle_spares _ (some new.id) other⟩⟩

end Cycle

theorem read_hashes {lib : PyLib} {i : JobId} {m : Uuid} {k : String} {hashes : List String}
    {l l' : List Write} {d d' : Data} (stored : d.db.hasArticle m k = true)
    (h : exec lib i (.urlHashes m) hashes l d = some (l', d')) : k ∈ hashes := by
  obtain ⟨ok, _, _⟩ := answered_eq h
  have view := hasArticle_after stored l
  simp only [Database.hasArticle, List.any_eq_true, Bool.and_eq_true, decide_eq_true_eq] at view
  obtain ⟨o, ho, market, rfl⟩ := view
  have own : o ∈ (d.db.after l).itemsOf m := List.mem_filter.mpr ⟨ho, by simpa using market⟩
  exact (List.isPerm_iff.mp ok).mem_iff.mpr (List.mem_map_of_mem own)

/-- A candidate was stored in this execution, and its url led to pages of its own hash, or an article
of that hash is stored all the same when a later cycle starts: it dispatches no search result of this url. -/
theorem stored_not_repeated (lib : PyLib) {w₀ w₁ w₂ w₃ : NewsWorld} {i j : JobId} {m : Uuid} {c : Candidate}
    {b : Option Uuid} {cfg cfg' : Settings} {tr tr' : List NewsEvent}
    (stored : Execution (newsSys lib plainTask) i (.job (.processCandidate m c b), cfg) w₀ tr w₁)
    {row : NewsItem} (stores : Stores tr row)
    (keyed : (∀ url t k page, Took tr (.scrapeUrl url t k) (.ok (some page)) →
      urlHash lib page.finalUrl = urlHash lib c.url) ∨
      ∃ h, urlHash lib c.url = .ok h ∧ w₂.data.db.hasArticle m h = true)
    (later : Steps (newsSys lib plainTask) w₁ w₂)
    (cycle : Execution (newsSys lib plainTask) j (.job (.processMarket m), cfg') w₂ tr' w₃)
    {queries : List String} {n : Nat} {results : List (Option (List SearchItem))} {candidates : List Candidate}
    {r : Candidate} {id : JobId} {c' : Candidate} {b' : Option Uuid} {t : Option Time} {a : Bool} :
    Took tr' (.searchSources queries n) results → mergeResults lib results = .ok candidates →
      r ∈ candidates → r.url = c.url → c'.canonicalUrlHash = r.canonicalUrlHash →
      ¬Took tr' (.enqueueJob id (.processCandidate m c' b') t) a := by
  intro _ merged mem same hash
  have own : urlHash lib c.url = .ok r.canonicalUrlHash :=
    same ▸ (mergeResults_merged merged).hashed r mem
  have known : w₂.data.db.hasArticle m r.canonicalUrlHash = true := by
    rcases keyed with agree | ⟨h, key, article⟩
    · have whole := stores
      obtain ⟨before, after, new, rfl, ⟨l, d, inserted⟩, _⟩ := stores
      have mem : ⟨.insertItem row, some new, l, d⟩ ∈ before ++ after := List.mem_append_left _ inserted
      have row_eq : Stmt.storesAs m (urlHash lib c.url) (.insertItem row) := by
        refine stored.along (e := ⟨.insertItem row, some new, l, d⟩) (R := pagesHash lib (urlHash lib c.url))
          (fun p d' hs => ?_) (fun e he => ?_) mem
        · obtain ⟨_, _, _, rfl, _⟩ := @newsSys_start lib plainTask _ _ _ _ _ _ hs
          exact processCandidate_storesAs m c b
        · obtain ⟨_, _, l', d', _, _, hx, _⟩ := stored.event he
          obtain ⟨s, answer, l, d⟩ := e
          have hx : exec lib i s answer l d = some (l', d') := hx
          show pagesHash lib (urlHash lib c.url) s answer
          unfold pagesHash
          split
          next => exact read_market hx
          next => exact agree _ _ _ _ ⟨l, d, he⟩
          next => exact True.intro
      obtain ⟨market, key⟩ := row_eq
      rw [own] at key
      rw [← market, Except.ok.inj key]
      exact hasArticle_steps later (stored_committed stored whole)
    · rw [key] at own
      exact Except.ok.inj own ▸ article
  rintro ⟨l, d, dispatched⟩
  refine cycle.along (e := ⟨.enqueueJob id (.processCandidate m c' b') t, a, l, d⟩)
    (R := knownArticle m r.canonicalUrlHash) (P := Stmt.sparesArticle m r.canonicalUrlHash)
    (fun p d' hs => ?_) (fun e he => ?_) dispatched rfl hash
  · obtain ⟨_, _, _, rfl, _⟩ := @newsSys_start lib plainTask _ _ _ _ _ _ hs
    exact processMarket_spares m
  · obtain ⟨w, _, l', d', first, at_, hx, _⟩ := cycle.event he
    obtain ⟨s, answer, l, d⟩ := e
    have hx : exec lib j s answer l d = some (l', d') := hx
    have at_ : w.data = d := at_
    show knownArticle m r.canonicalUrlHash s answer
    unfold knownArticle
    split
    next => exact read_market hx
    next =>
      rintro rfl
      have article := hasArticle_steps first known
      rw [at_] at article
      exact read_hashes article hx
    next => exact True.intro

/-- One candidate without a batch, whose page is found under this final url. -/
def redirectOracle (finalUrl : String) : Oracle
  | .scrapeUrl _ _ _ => some (.ok (some ⟨finalUrl, "text", true, .none, none⟩))
  | s => undatedOracle .none s

def redirectTask : Task × Settings := (.job (.processCandidate 1 (sampleCandidate "a") none), sampleSettings)

def searchTask : Task × Settings := (.job (.processMarket 1), sampleSettings)

/-- The candidate is stored, and a cycle then finds the same url again. -/
def searchAgain (finalUrl : String) (n : Nat) : Option ((List NewsEvent × NewsWorld) × List NewsEvent × NewsWorld) :=
  let S := newsSys sampleLib plainTask
  let oracle := redirectOracle finalUrl
  match S.execute slotJob redirectTask sampleWorld (execs sampleLib oracle slotJob 13) with
  | none => none
  | some (tr, w) => ((S.execute (.processMarket 1 0) searchTask w
      (execs sampleLib oracle (.processMarket 1 0) n)).map fun x => ((tr, w), x))

def insertedRow : NewsEvent → Option NewsItem
  | ⟨.insertItem row, some _, _, _⟩ => some row
  | _ => none

def isCommit : NewsEvent → Bool
  | ⟨.commit, _, _, _⟩ => true
  | _ => false

def mergedAnswer (lib : PyLib) : NewsEvent → Option (List Candidate)
  | ⟨.searchSources _ _, results, _, _⟩ => (mergeResults lib results).toOption
  | _ => none

def dispatchedUrl (m : Uuid) : NewsEvent → Option String
  | ⟨.enqueueJob _ (.processCandidate m' c _) _, _, _, _⟩ => if m' = m then some c.canonicalUrlHash else none
  | _ => none

def foundAt (finalUrl : String) : NewsEvent → Bool
  | ⟨.scrapeUrl _ _ _, .ok (some page), _, _⟩ => page.finalUrl = finalUrl
  | _ => true

theorem stores_of {tr : List NewsEvent} {row : NewsItem} (k : Nat)
    (inserted : (tr.take k).findSome? insertedRow = some row) (committed : (tr.drop k).any isCommit = true) :
    Stores tr row := by
  obtain ⟨e, he, this⟩ := List.exists_of_findSome?_eq_some inserted
  obtain ⟨e', he', last⟩ := List.any_eq_true.mp committed
  unfold insertedRow at this
  split at this
  next row' new l d =>
    obtain rfl := Option.some.inj this
    unfold isCommit at last
    split at last
    next u l' d' => exact ⟨_, _, new, (List.take_append_drop k tr).symm, ⟨l, d, he⟩, l', d', he'⟩
    next => simp at last
  next => simp at this

theorem took_search {lib : PyLib} {tr : List NewsEvent} {candidates : List Candidate}
    (h : tr.findSome? (mergedAnswer lib) = some candidates) : ∃ queries n results,
      Took tr (.searchSources queries n) results ∧ mergeResults lib results = .ok candidates := by
  obtain ⟨e, he, this⟩ := List.exists_of_findSome?_eq_some h
  unfold mergedAnswer at this
  split at this
  next queries n results l d =>
    refine ⟨queries, n, results, ⟨l, d, he⟩, ?_⟩
    cases merged : mergeResults lib results with
    | error e => simp [merged, Except.toOption] at this
    | ok found => rw [merged] at this; exact congrArg Except.ok (Option.some.inj this)
  next => simp at this

theorem took_dispatch {tr : List NewsEvent} {m : Uuid} {k : String}
    (h : tr.findSome? (dispatchedUrl m) = some k) :
    ∃ id c b t a, c.canonicalUrlHash = k ∧ Took tr (.enqueueJob id (.processCandidate m c b) t) a := by
  obtain ⟨e, he, this⟩ := List.exists_of_findSome?_eq_some h
  unfold dispatchedUrl at this
  split at this
  next id m' c b t a l d =>
    split at this
    next same =>
      subst same
      exact ⟨id, c, b, t, a, Option.some.inj this, l, d, he⟩
    next => simp at this
  next => simp at this

theorem searchAgain_executions {finalUrl : String} {n : Nat} {tr tr' : List NewsEvent} {w₁ w₂ : NewsWorld}
    (h : searchAgain finalUrl n = some ((tr, w₁), tr', w₂)) :
    Execution (newsSys sampleLib plainTask) slotJob redirectTask sampleWorld tr w₁ ∧
      Execution (newsSys sampleLib plainTask) (.processMarket 1 0) searchTask w₁ tr' w₂ := by
  unfold searchAgain at h
  dsimp only at h
  split at h
  next => simp at h
  next tr₁ w first =>
    obtain ⟨⟨tr₂, w'⟩, second, e⟩ := Option.map_eq_some_iff.mp h
    obtain ⟨rfl, rfl⟩ := Prod.mk.inj (Prod.mk.inj e).1
    obtain ⟨rfl, rfl⟩ := Prod.mk.inj (Prod.mk.inj e).2
    exact ⟨Sys.execute_execution first, Sys.execute_execution second⟩

def foundCandidate : Candidate := ⟨"a", "t", "", .none, "s", "a"⟩

theorem stored_not_repeated_sample : ∃ (w₁ w₂ : NewsWorld) (tr' : List NewsEvent),
    Execution (newsSys sampleLib plainTask) (.processMarket 1 0) searchTask w₁ tr' w₂ ∧
    (∃ queries n results, Took tr' (.searchSources queries n) results ∧
      mergeResults sampleLib results = .ok [foundCandidate]) ∧
    ∀ id c b t a, c.canonicalUrlHash = "a" → ¬Took tr' (.enqueueJob id (.processCandidate 1 c b) t) a := by
  have run : (searchAgain "a" 11).any (fun x =>
      ((x.1.1.take 10).findSome? insertedRow).isSome && (x.1.1.drop 10).any isCommit &&
        x.1.1.all (foundAt "a") &&
        decide (x.2.1.findSome? (mergedAnswer sampleLib) = some [foundCandidate])) = true := by
    decide +kernel
  obtain ⟨⟨⟨tr, w₁⟩, tr', w₂⟩, found, hp⟩ := (Option.any_eq_true _ _).mp run
  obtain ⟨stored, cycle⟩ := searchAgain_executions found
  simp only [Bool.and_eq_true, decide_eq_true_eq] at hp
  obtain ⟨⟨⟨inserted, committed⟩, pages⟩, search⟩ := hp
  obtain ⟨row, inserted⟩ := Option.isSome_iff_exists.mp inserted
  obtain ⟨queries, n, results, took, merged⟩ := took_search search
  refine ⟨w₁, w₂, tr', cycle, ⟨queries, n, results, took, merged⟩, fun id c b t a hash => ?_⟩
  have keyed : ∀ url t k page, Took tr (.scrapeUrl url t k) (.ok (some page)) →
      urlHash sampleLib page.finalUrl = urlHash sampleLib (sampleCandidate "a").url := by
    rintro url t k page ⟨l, d, he⟩
    have same : page.finalUrl = "a" := of_decide_eq_true (List.all_eq_true.mp pages _ he)
    rw [same]
    rfl
  exact stored_not_repeated sampleLib stored (stores_of 10 inserted committed) (.inl keyed) .refl cycle took
    merged List.mem_cons_self rfl hash

/-- The page of url `a` is found at url `b`, and the next cycle dispatches `a` again. -/
theorem redirect_repeated : ∃ (w₁ w₂ : NewsWorld) (tr tr' : List NewsEvent) (row : NewsItem),
    Execution (newsSys sampleLib plainTask) slotJob redirectTask sampleWorld tr w₁ ∧ Stores tr row ∧
    Execution (newsSys sampleLib plainTask) (.processMarket 1 0) searchTask w₁ tr' w₂ ∧
    ∃ queries n results candidates, Took tr' (.searchSources queries n) results ∧
      mergeResults sampleLib results = .ok candidates ∧
      ∃ r ∈ candidates, r.url = (sampleCandidate "a").url ∧
        ∃ id c b t a, c.canonicalUrlHash = r.canonicalUrlHash ∧
          Took tr' (.enqueueJob id (.processCandidate 1 c b) t) a := by
  have run : (searchAgain "b" 13).any (fun x =>
      ((x.1.1.take 10).findSome? insertedRow).isSome && (x.1.1.drop 10).any isCommit &&
        decide (x.2.1.findSome? (mergedAnswer sampleLib) = some [foundCandidate]) &&
        decide (x.2.1.findSome? (dispatchedUrl 1) = some "a")) = true := by
    decide +kernel
  obtain ⟨⟨⟨tr, w₁⟩, tr', w₂⟩, found, hp⟩ := (Option.any_eq_true _ _).mp run
  obtain ⟨stored, cycle⟩ := searchAgain_executions found
  simp only [Bool.and_eq_true, decide_eq_true_eq] at hp
  obtain ⟨⟨⟨inserted, committed⟩, search⟩, dispatched⟩ := hp
  obtain ⟨row, inserted⟩ := Option.isSome_iff_exists.mp inserted
  obtain ⟨queries, n, results, took, merged⟩ := took_search search
  exact ⟨w₁, w₂, tr, tr', row, stored, stores_of 10 inserted committed, cycle, queries, n, results, _, took,
    merged, foundCandidate, List.mem_cons_self, rfl, took_dispatch dispatched⟩

end NewsNotifier
