import NewsNotifier.CycleDates

namespace NewsNotifier

open Interleaving

/-- The jobs of a cycle's candidates run as they were enqueued. -/
def cycleTask : Admits := fun _ task _ d =>
  task.plain &&
    match task with
    | .job (.processCandidate m c (some b)) =>
      d.accepted.any fun q => q.job = .processCandidate m c (some b)
    | _ => true

/-- The date found on the page does not put a candidate of a cycle before the cycle's watermark. -/
def notOlder (lib : PyLib) (d : Data) (page : RawDate) : Task → Bool
  | .job (.processCandidate _ c (some b)) =>
    (readDate lib c.publishedAt).isSome ||
      d.cycles.all fun e =>
        match e.2, readDate lib page with
        | some w, some x => e.1 ≠ b || w ≤ x
        | _, _ => true
  | _ => true

/-- The runs in which, for every candidate of a cycle without a usable search date, the date of the page that is
scraped is unusable too or not older than the cycle's watermark. -/
def pagesNotOlder (lib : PyLib) (i : JobId) (s : Stmt) (r : Answer s) (_ : List Write) (d : Data) : Bool :=
  match s, r with
  | .scrapeUrl _ _ _, .ok (some page) => !page.success || (d.tasksOf i).all (notOlder lib d page.publishedAt)
  | _, _ => true

def chronicle (lib : PyLib) : Contract JobId Raised Data where
  inv d := d.Chronological lib
  act a d d' := d.Extends d' ∧ d'.Chronological lib ∧ ∀ i, a ≠ some i → d'.tasksOf i = d.tasksOf i
  fault _ := True

/-- A process of this task that keeps the dates of the cycles. -/
abbrev Chronicles (lib : PyLib) (i : JobId) {α : Type} (p : Program α)
    (Q : α → List Write → Data → Prop) (l : List Write) (d : Data) : Prop :=
  wp ((newsSys lib cycleTask).restrict (pagesNotOlder lib)) ((chronicle lib).terms i) i p Q
    (fun _ => True) l d

/-- What a process knows: its task, and the dates it may store. -/
structure Knows (i : JobId) (task : Task) (b : Option Uuid) (ok : Option Time → Prop)
    (l : List Write) (d : Data) : Prop where
  fitting : Fitting b ok l d
  task : d.tasksOf i = [task]

section Rules

variable {lib : PyLib} {i : JobId} {task : Task} {α : Type} {b : Option Uuid}
  {ok : Option Time → Prop} {l l' : List Write} {d d' : Data} {Q : α → List Write → Data → Prop}

theorem chronicle_rely (h : ((chronicle lib).terms i).rely d d') :
    d.Extends d' ∧ d'.tasksOf i = d.tasksOf i := by
  refine Contract.rely_ind (R := fun d d' => d.Extends d' ∧ d'.tasksOf i = d.tasksOf i)
    ⟨.refl d, rfl⟩ (fun h h' => ⟨h.1.trans h'.1, h'.2.trans h.2⟩) ?_ h
  rintro c c' ⟨a, ne, _, _, ext, _, tasks⟩
  exact ⟨ext, tasks i ne⟩

theorem Knows.rely (h : Knows i task b ok l d) (hr : ((chronicle lib).terms i).rely d d') :
    Knows i task b ok l d' := by
  obtain ⟨ext, tasks⟩ := chronicle_rely hr
  exact ⟨h.fitting.extend ext, tasks.trans h.task⟩

theorem chronicle_exec {s : Stmt} {r : Answer s} (hs : s.fits lib b ok) (hl : Knows i task b ok l d)
    (hd : d.Chronological lib) (h : exec lib i s r l d = some (l', d')) :
    (chronicle lib).act (some i) d d' ∧ Knows i task b ok l' d' := by
  obtain ⟨ext, chron, fitting⟩ := exec_chronological hs hl.fitting hd h
  exact ⟨⟨ext, chron, fun j _ => exec_tasksOf h j⟩, fitting, (exec_tasksOf h i).trans hl.task⟩

/-- A program of fitting statements. -/
theorem chronicles_each {p : Program α} (hp : p.Each (Stmt.fits lib b ok) fun _ => True)
    (h : Knows i task b ok l d) : Chronicles lib i p (fun _ => Knows i task b ok) l d :=
  wp_of_each hp (fun _ _ _ hr _ hk => hk.rely hr)
    (fun _ hs _ _ _ _ _ hk hi hx => chronicle_exec hs hk hi (Sys.exec_of_restrict hx).2) h

/-- One statement, with what its execution says. -/
theorem chronicles_stmt {s : Stmt} {next : Answer s → Program α} (hs : s.fits lib b ok)
    (h : Knows i task b ok l d)
    (then_ : ∀ r l' (d' d'' : Data), d'.Chronological lib → d.Extends d' → Knows i task b ok l d' →
      pagesNotOlder lib i s r l d' = true → exec lib i s r l d' = some (l', d'') →
      Knows i task b ok l' d'' → Chronicles lib i (next r) Q l' d'') :
    Chronicles lib i (.stmt s next) Q l d := by
  intro d' hr hi r l' d'' hx
  obtain ⟨allowed, hx⟩ := Sys.exec_of_restrict hx
  have known := h.rely hr
  obtain ⟨act, known'⟩ := chronicle_exec hs known hi hx
  exact ⟨act, then_ r l' d' d'' hi (chronicle_rely hr).1 known allowed hx known'⟩

end Rules

theorem Stmt.reading.fits {lib : PyLib} {b : Option Uuid} {ok : Option Time → Prop} {m : Uuid}
    {s : Stmt} (h : s.reading m) : s.fits lib b ok := by
  cases s <;> first | exact True.intro | exact False.elim h

theorem Stmt.batching.fits {lib : PyLib} {b : Option Uuid} {ok : Option Time → Prop} {m : Uuid}
    {s : Stmt} (h : s.batching m) : s.fits lib b ok := by
  unfold Stmt.batching at h
  split at h <;> first | exact True.intro | exact h.elim

theorem Stmt.delivering.fits {lib : PyLib} {b : Option Uuid} {ok : Option Time → Prop}
    {s : Stmt} (h : s.delivering) : s.fits lib b ok := by
  unfold Stmt.delivering at h
  split at h <;> first | exact True.intro | exact h.elim

theorem fits_serves {lib : PyLib} {b : Option Uuid} {ok : Option Time → Prop} :
    Serves (Stmt.fits lib b ok) :=
  ⟨fun _ _ h => h.fits, True.intro, fun _ _ _ => True.intro, fun _ => True.intro, fun _ => True.intro⟩

section Programs

variable {lib : PyLib} {i : JobId} {cfg : Settings} {task : Task} {m : Uuid} {d : Data}

/-- A program of statements that store and enqueue nothing of a batch. -/
theorem chronicles_any {p : Program Unit} (hp : p.Each (Stmt.fits lib none fun _ => True) fun _ => True)
    (tasks : d.tasksOf i = [task]) : Chronicles lib i p (fun _ _ _ => True) [] d := by
  have known : Knows i task none (fun _ => True) [] d := ⟨⟨by simp, by simp [Data.Dated]⟩, tasks⟩
  exact wp_mono (chronicles_each hp known) (fun _ _ _ _ _ => True.intro) fun _ h => h

/-- The stored date goes with the batch when the search date does and the page is not older. -/
theorem dated_or {c : Candidate} {batchId : Option Uuid} {page : RawDate}
    (h : d.Dated batchId (readDate lib c.publishedAt))
    (ok : notOlder lib d page (.job (.processCandidate m c batchId)) = true) :
    d.Dated batchId ((readDate lib c.publishedAt).or (readDate lib page)) := by
  rintro b rfl
  obtain ⟨drawn, dated⟩ := h b rfl
  refine ⟨drawn, fun t ht x hx => ?_⟩
  cases search : readDate lib c.publishedAt with
  | some y =>
    rw [search, Option.some_or] at hx
    exact dated t ht x (search.trans hx)
  | none =>
    rw [search, Option.none_or] at hx
    have all := ok
    simp only [notOlder, search, Option.isSome_none, Bool.false_or, List.all_eq_true] at all
    simpa [hx] using all _ ht

theorem processCandidate_chronicles {c : Candidate} {batchId : Option Uuid}
    (dated : d.Dated batchId (readDate lib c.publishedAt))
    (tasks : d.tasksOf i = [.job (.processCandidate m c batchId)]) :
    Chronicles lib i (processCandidate lib cfg m c batchId) (fun _ _ _ => True) [] d := by
  have known : Knows i (.job (.processCandidate m c batchId)) batchId
      (· = readDate lib c.publishedAt) [] d := by
    refine ⟨⟨by simp, ?_⟩, tasks⟩
    rintro date rfl
    exact dated
  have rest : ∀ {ok : Option Time → Prop} {p : Program Unit} {l : List Write} {d : Data},
      p.Each (Stmt.fits lib batchId ok) (fun _ => True) →
      Knows i (.job (.processCandidate m c batchId)) batchId ok l d →
      Chronicles lib i p (fun _ _ _ => True) l d :=
    fun hp hk => wp_mono (chronicles_each hp hk) (fun _ _ _ _ _ => True.intro) fun _ h => h
  refine chronicles_stmt True.intro known fun found l₁ d₁ d₁' _ _ _ _ _ known₁ => ?_
  simp only [Prog.ret_bind]
  split
  next => exact rest (resolve_does (fun _ h => h.fits) (fun _ _ _ _ => True.intro) _ none) known₁
  next market _ _ =>
    split
    next => exact rest (resolve_does (fun _ h => h.fits) (fun _ _ _ _ => True.intro) _ none) known₁
    next =>
      refine chronicles_stmt True.intro known₁ fun scraped l₂ d₂ d₂' _ _ before allowed hx known₂ => ?_
      obtain ⟨rfl, rfl⟩ := Prod.mk.inj (Option.some.inj hx)
      simp only [Prog.ret_bind]
      have failed : ∀ result, Chronicles lib i (scrapeFailed lib market c batchId result)
          (fun _ _ _ => True) l₁ d₂ := fun result =>
        rest (scrapeFailed_does (fun _ => True.intro) (fun _ h => h.fits) (fun _ _ _ _ => True.intro)
          (fun _ => True.intro) result) known₂
      split
      next => exact fun _ _ _ => True.intro
      next => exact failed none
      next page =>
        split
        next => exact failed (some page)
        next success =>
          have ok : notOlder lib d₂ page.publishedAt (.job (.processCandidate m c batchId)) = true := by
            have allowed : (!page.success || (d₂.tasksOf i).all (notOlder lib d₂ page.publishedAt)) = true := allowed
            simpa [success, known₂.task] using allowed
          have known₃ : Knows i (.job (.processCandidate m c batchId)) batchId
              (· = (readDate lib c.publishedAt).or (readDate lib page.publishedAt)) l₁ d₂ := by
            refine ⟨⟨known₂.fitting.staged, ?_⟩, known₂.task⟩
            rintro date rfl
            exact dated_or (known₂.fitting.later _ rfl) ok
          refine rest (extractAndStore_does (fun _ => True.intro) (fun _ h => h.fits)
            (fun _ h => h.fits) (fun _ _ _ _ => True.intro) fun row h _ => ⟨h.batch, ?_⟩) known₃
          obtain ⟨raw, rfl, date⟩ := h.date
          exact itemDate_ok date

/-- What the filters promise of a selected candidate's search date. -/
def NotOlder (lib : PyLib) (watermark : Option Time) (raw : RawDate) : Prop :=
  ∀ t, watermark = some t → ∀ x, readDate lib raw = some x → t ≤ x

theorem selectCandidates_notOlder (market : Market) : (selectCandidates lib cfg market).Yields
    fun selected => ∀ c ∈ selected, NotOlder lib market.maxDeliveredPublishedAt c.publishedAt := by
  refine (Prog.Yields.trivial _).bind fun queries _ => (Prog.Yields.trivial _).bind fun candidates _ =>
    fun hashes now => ?_
  simp only [Prog.ret_bind]
  refine (Prog.Yields.trivial _).bind fun recent _ => (ofExcept_yields fun _ => id).bind fun kept filtered => ?_
  have dated : ∀ c ∈ kept, NotOlder lib market.maxDeliveredPublishedAt c.publishedAt := by
    intro c hc t ht x hx
    rw [ht] at filtered
    exact filterOlderThanWatermark_date filtered hc hx
  unfold selectRelevantCandidates
  split
  next => exact dated
  next =>
    intro vectors
    simp only [Prog.ret_bind]
    split
    next => exact True.intro
    next => exact True.intro
    next => exact fun c hc => dated c (rankBySimilarity_subset hc)

/-- A new batch takes the dates that are not before the watermark its cycle read. -/
theorem insertBatch_fitting {n : Nat} {w : Option Time} {new : Inserted} {l l' : List Write} {d' : Data}
    (hx : exec lib i (.insertBatch m n w) new l d = some (l', d')) (hd : d.Chronological lib)
    {b : Option Uuid} {ok : Option Time → Prop} (fitting : Fitting b ok l' d') :
    Fitting (some new.id) (fun date => ∀ t, w = some t → ∀ x, date = some x → t ≤ x) l' d' := by
  refine ⟨fitting.staged, ?_⟩
  simp only [exec] at hx
  split at hx
  next fresh =>
    obtain ⟨rfl, rfl⟩ := Prod.mk.inj (Option.some.inj hx)
    rintro date ok b' hb
    obtain rfl := Option.some.inj hb
    refine ⟨List.mem_cons_self, fun t ht x date_x => ?_⟩
    rcases List.mem_cons.mp ht with e | old
    · exact ok t (Prod.mk.inj e).2.symm x date_x
    · exact absurd (hd.cycles _ old) (not_drawn fresh)
  next => simp at hx

theorem processMarket_chronicles (tasks : d.tasksOf i = [task]) :
    Chronicles lib i (processMarket lib cfg m) (fun _ _ _ => True) [] d := by
  have known : Knows i task none (fun _ => True) [] d := ⟨⟨by simp, by simp [Data.Dated]⟩, tasks⟩
  have reads : ∀ {m : Uuid} (s : Stmt), s.reading m → s.fits lib none fun _ => True := fun _ h => h.fits
  refine chronicles_stmt True.intro known fun found l₁ d₁ d₁' _ _ _ _ _ known₁ => ?_
  simp only [Prog.ret_bind]
  split
  next => exact fun _ _ _ => True.intro
  next market _ _ =>
    split
    next => exact fun _ _ _ => True.intro
    next =>
      refine wp_bind (wp_mono (wp_yields (selectCandidates_notOlder market) (chronicles_each
        (selectCandidates_does market (fun _ => True.intro) reads) known₁)) ?_ fun _ h => h)
      rintro selected l₂ d₂ _ ⟨known₂, dated⟩ _
      refine chronicles_stmt True.intro known₂ fun now l₃ d₃ d₃' _ _ _ _ _ known₃ => ?_
      refine chronicles_stmt True.intro known₃ fun u l₄ d₄ d₄' _ _ _ _ _ known₄ => ?_
      simp only [Prog.ret_bind]
      refine wp_bind (wp_mono (chronicles_each (assignMarket_does market True.intro) known₄) ?_ fun _ h => h)
      rintro _ l₅ d₅ _ known₅ _
      refine wp_bind (wp_mono (chronicles_each (assignMarket_does market True.intro) known₅) ?_ fun _ h => h)
      rintro _ l₆ d₆ _ known₆ _
      split
      next none_selected =>
        refine wp_mono (chronicles_each ⟨True.intro, fun _ => ?_⟩ known₆) (fun _ _ _ _ _ => True.intro)
          fun _ h => h
        exact dispatchCycle_does (fun _ h => h.fits) (fun _ => True.intro) True.intro _
          (fun _ => True.intro) none selected (by simp [none_selected]) fun _ _ _ _ _ _ => True.intro
      next =>
        refine chronicles_stmt True.intro known₆ fun new l₇ d₇ d₇' hi _ _ _ hx known₇ => ?_
        have known₈ : Knows i task (some new.id) (fun date => ∀ t, market.maxDeliveredPublishedAt = some t →
            ∀ x, date = some x → t ≤ x) l₇ d₇' :=
          ⟨insertBatch_fitting hx hi known₇.fitting, known₇.task⟩
        refine wp_mono (chronicles_each ⟨True.intro, fun _ => ?_⟩ known₈) (fun _ _ _ _ _ => True.intro)
          fun _ h => h
        exact dispatchCycle_does (fun _ h => h.fits) (fun _ => True.intro) True.intro _
          (fun _ => True.intro) (some new.id) selected (fun c hc => ⟨rfl, dated c hc⟩)
          fun _ _ _ _ _ _ => True.intro

theorem taskProgram_chronicles (hd : d.Chronological lib) (tasks : d.tasksOf i = [task])
    (accepted : ∀ m c b, task = .job (.processCandidate m c (some b)) →
      ∃ q ∈ d.accepted, q.job = .processCandidate m c (some b)) :
    Chronicles lib i (taskProgram lib cfg task) (fun _ _ _ => True) [] d := by
  cases task with
  | job j =>
    cases j with
    | processMarket m => exact processMarket_chronicles tasks
    | processCandidate m c batchId =>
      refine processCandidate_chronicles ?_ tasks
      rintro b rfl
      obtain ⟨q, hq, job⟩ := accepted m c b rfl
      exact hd.jobs q hq m c (some b) job b rfl
    | deliverBatch logId =>
      exact chronicles_any (deliverBatch_does (fun _ h => h.fits) (fun _ => True.intro) True.intro
        (fun _ _ _ => True.intro) logId) tasks
  | _ =>
    refine chronicles_any (taskProgram_does fits_serves (fun _ _ h => h.fits) (fun _ _ _ => True.intro)
      (fun _ _ => True.intro) (fun _ _ => True.intro) (fun _ _ _ _ _ _ => True.intro) ?_) tasks
    rintro j ⟨⟩

end Programs

/-- Every step of the runs with no older page keeps the dates of the cycles. -/
theorem chronicle_governs (lib : PyLib) :
    (chronicle lib).Governs ((newsSys lib cycleTask).restrict (pagesNotOlder lib)) where
  keep _ act := act.2.1
  start := by
    rintro i ⟨task, cfg⟩ d p d' hs hd
    obtain ⟨_, _, admitted, rfl, rfl⟩ := @newsSys_start lib cycleTask _ _ _ _ _ _ hs
    obtain ⟨own, others⟩ := begin_tasksOf d i task cfg
    have chron : (d.begin i task cfg).Chronological lib := ⟨hd.cycles, hd.items, hd.jobs⟩
    refine ⟨⟨⟨fun _ h => h, fun _ h => .inl h⟩, chron, fun j ne => others j fun e => ne (e ▸ rfl)⟩,
      taskProgram_chronicles chron own ?_⟩
    rintro m c b rfl
    simp only [cycleTask, Bool.and_eq_true, List.any_eq_true, decide_eq_true_eq] at admitted
    exact admitted.2
  stop {i d} hd :=
    ⟨⟨fun _ h => h, fun _ h => .inl h⟩, ⟨hd.cycles, hd.items, hd.jobs⟩,
      fun j ne => finish_tasksOf d i fun e => ne (e ▸ rfl)⟩
  env := by
    rintro t d d' he hd
    obtain ⟨_, rfl⟩ := @newsSys_env lib cycleTask _ _ _ he
    exact ⟨⟨fun _ h => h, fun _ h => .inl h⟩, ⟨hd.cycles, hd.items, hd.jobs⟩, fun _ _ => rfl⟩

end NewsNotifier
