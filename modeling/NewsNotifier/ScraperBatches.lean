import NewsNotifier.PageScraper

namespace NewsNotifier

open Interleaving Prog

/-- Where the scrape of a url stands: inside the semaphore, with a context, with an entry made. -/
structure ScrapeStage where
  url : String
  inside : Bool
  opened : Bool
  recorded : Bool

namespace ScrapeStage

def next (m : ScrapeStage) (s : ScrapeStmt) (r : ScrapeAnswer s) : ScrapeStage :=
  match s, r with
  | .acquire, _ => { m with inside := true }
  | .release, _ => { m with inside := false }
  | .newContext, .ok _ => { m with opened := true }
  | .newContext, .error _ => m
  | .closeContext, _ => { m with opened := false }
  | .record _ _, _ => { m with recorded := true }
  | .extract _ _, _ => m
  | .newPage, _ => m
  | .goto _ _, _ => m
  | .waitForSelector _ _, _ => m
  | .pageUrl, _ => m
  | .content, _ => m

def Asked (m : ScrapeStage) : ScrapeStmt → Prop
  | .acquire => m.inside = false ∧ m.opened = false
  | .release | .newContext | .extract _ _ => m.inside = true ∧ m.opened = false
  | .record url _ => url = m.url ∧ m.inside = true
  | _ => m.inside = true ∧ m.opened = true

/-- The scrape is over: it has left the semaphore, with its context closed and its entry made. -/
def Over (m : ScrapeStage) : Prop := m.inside = false ∧ m.opened = false ∧ m.recorded = true

def watched : Monitor ScrapeStmt ScrapeAnswer ScrapeStage := ⟨next, fun _ _ _ => True, Asked⟩

end ScrapeStage

open ScrapeStage

variable {lib : ScrapeLib} {timeoutMs : Nat} {url : String}

theorem readPage_watched (lib : ScrapeLib) (timeoutMs : Nat) (url : String) :
    (readPage lib timeoutMs url).Obeys watched (fun m _ => m = ⟨url, true, true, false⟩) (fun _ _ => False)
      ⟨url, true, true, false⟩ := by
  refine ⟨⟨rfl, rfl⟩, fun page _ => ?_⟩
  cases page with
  | error e => exact rfl
  | ok _ =>
    refine ⟨⟨rfl, rfl⟩, fun loaded _ => ?_⟩
    cases loaded with
    | error e => exact rfl
    | ok _ =>
      refine ⟨⟨rfl, rfl⟩, fun _ _ => ⟨⟨rfl, rfl⟩, fun finalUrl _ => ⟨⟨rfl, rfl⟩, fun html _ => ?_⟩⟩⟩
      cases html with
      | error e => exact rfl
      | ok html =>
        cases result : pageResult lib finalUrl html with
        | error e => simp only [pure_eq, ret_bind, result]; exact rfl
        | ok scraped => simp only [pure_eq, ret_bind, result]; exact rfl

theorem scrapeViaBrowser_watched (lib : ScrapeLib) (timeoutMs : Nat) (url : String) :
    (scrapeViaBrowser lib timeoutMs url).Obeys watched (fun m _ => m = ⟨url, true, false, true⟩)
      (fun m _ => m = ⟨url, true, false, true⟩) ⟨url, true, false, false⟩ := by
  refine ⟨⟨rfl, rfl⟩, fun context _ => ?_⟩
  have closes : ∀ result, ((scrape (.record url result)).bind fun _ => closeContext).Obeys watched
      (fun m _ => m = ⟨url, true, false, true⟩) (fun m _ => m = ⟨url, true, false, true⟩) ⟨url, true, true, false⟩ := by
    refine fun result => ⟨⟨rfl, rfl⟩, fun _ _ => ⟨⟨rfl, rfl⟩, fun closed _ => ?_⟩⟩
    cases closed with
    | error e => exact rfl
    | ok _ => exact rfl
  cases context with
  | error e => exact ⟨⟨rfl, rfl⟩, fun _ _ => rfl⟩
  | ok _ =>
    refine Obeys.bind (p := readPage lib timeoutMs url)
      ((readPage_watched lib timeoutMs url).mono (fun m read h => ?_) fun _ _ h => h.elim)
    subst h
    cases read with
    | error e => exact closes (failedScrape url e)
    | ok result => exact closes result

theorem scrapeOne_watched (lib : ScrapeLib) (timeoutMs : Nat) (url : String) :
    (scrapeOne lib timeoutMs url).Obeys watched (fun m _ => m.Over) (fun m _ => m.Over)
      ⟨url, false, false, false⟩ := by
  refine ⟨⟨rfl, rfl⟩, fun _ _ => Obeys.within ?_⟩
  have leaves : ∀ m : ScrapeStage, m = ⟨url, true, false, true⟩ → (scrape .release).Obeys watched
      (fun m _ => m.Over) (fun m _ => m.Over) m := by
    rintro _ rfl
    exact ⟨⟨rfl, rfl⟩, fun _ _ => ⟨rfl, rfl, rfl⟩⟩
  have browser := (scrapeViaBrowser_watched lib timeoutMs url).mono (fun m _ => leaves m) fun m _ => leaves m
  split
  next => exact browser
  next extractor found =>
    refine ⟨⟨rfl, rfl⟩, fun article _ => ?_⟩
    rcases article with _ | _ | article
    · exact browser
    · exact browser
    · exact ⟨⟨rfl, rfl⟩, fun _ _ => leaves _ rfl⟩

/-- The urls that have an entry. -/
def Batch.keys (b : Batch) : List String := b.results.map (·.1)

theorem setResult_keys (results : List (String × Scraped)) (url : String) (result : Scraped) :
    (setResult results url result).map (·.1) =
      if url ∈ results.map (·.1) then results.map (·.1) else results.map (·.1) ++ [url] := by
  have known : results.any (·.1 = url) = true ↔ url ∈ results.map (·.1) := by simp
  unfold setResult
  by_cases again : url ∈ results.map (·.1)
  · rw [if_pos (known.mpr again), if_pos again, List.map_map]
    refine List.map_congr_left fun e _ => ?_
    by_cases same : e.1 = url
    · simp [same]
    · simp [same]
  · rw [if_neg fun h => again (known.mp h), if_neg again, List.map_append, List.map_singleton]

theorem setResult_mem {results : List (String × Scraped)} {url key : String} {result r : Scraped}
    (h : (key, r) ∈ setResult results url result) : (key, r) ∈ results ∨ key = url ∧ r = result := by
  unfold setResult at h
  split at h
  next =>
    obtain ⟨e, he, same⟩ := List.mem_map.mp h
    split at same
    next => exact .inr (Prod.mk.inj same.symm)
    next => exact .inl (same ▸ he)
  next =>
    rcases List.mem_append.mp h with old | new
    · exact .inl old
    · exact .inr (Prod.mk.inj (List.mem_singleton.mp new))

/-- Permits are inside or free, contexts belong to those inside, and each key is one of the urls. -/
structure Batch.Kept (urls : List String) (concurrency : Nat) (b : Batch) : Prop where
  urls_eq : b.urls = urls
  permits : b.value + b.inside.length = concurrency
  inside_nodup : b.inside.Nodup
  contexts_nodup : b.contexts.Nodup
  contexts_inside : b.contexts ⊆ b.inside
  inside_started : b.inside ⊆ b.started
  keys_nodup : b.keys.Nodup
  keys_urls : b.keys ⊆ urls

/-- What a batch has to do with where the scrape of task `i` stands. -/
structure ScrapeStage.At (i : Nat) (m : ScrapeStage) (b : Batch) : Prop where
  url : b.urls[i]? = some m.url
  started : i ∈ b.started
  inside : m.inside = true ↔ i ∈ b.inside
  opened : m.opened = true ↔ i ∈ b.contexts
  recorded : m.recorded = true → m.url ∈ b.keys

/-- Task `i` leaves to the others what is theirs. -/
structure Batch.Beside (i : Nat) (b b' : Batch) : Prop where
  urls : b'.urls = b.urls
  started : ∀ j, j ≠ i → (j ∈ b'.started ↔ j ∈ b.started)
  gone : ∀ j, j ≠ i → (j ∈ b'.gone ↔ j ∈ b.gone)
  inside : ∀ j, j ≠ i → (j ∈ b'.inside ↔ j ∈ b.inside)
  contexts : ∀ j, j ≠ i → (j ∈ b'.contexts ↔ j ∈ b.contexts)
  keys : b.keys ⊆ b'.keys

variable {urls : List String} {concurrency i j : Nat} {m : ScrapeStage} {b b' : Batch}

theorem ScrapeStage.At.beside (h : m.At j b) (other : j ≠ i) (beside : Batch.Beside i b b') : m.At j b' :=
  ⟨beside.urls ▸ h.url, (beside.started j other).mpr h.started, h.inside.trans (beside.inside j other).symm,
    h.opened.trans (beside.contexts j other).symm, fun has => beside.keys (h.recorded has)⟩

/-- What one statement of a task at this stage does to the batch. -/
theorem scrapeExec_beside {s : ScrapeStmt} {r : ScrapeAnswer s} (hx : scrapeExec i s r b = some b') :
    Batch.Beside i b b' := by
  have still : Batch.Beside i b b :=
    ⟨rfl, fun _ _ => .rfl, fun _ _ => .rfl, fun _ _ => .rfl, fun _ _ => .rfl, List.Subset.refl _⟩
  cases s with
  | acquire =>
    simp only [scrapeExec] at hx
    split at hx
    next =>
      cases Option.some.inj hx
      refine ⟨rfl, fun _ _ => .rfl, fun _ _ => .rfl, fun j other => ?_, fun _ _ => .rfl, List.Subset.refl _⟩
      simp [other]
    next => simp at hx
  | release =>
    cases Option.some.inj hx
    exact ⟨rfl, fun _ _ => .rfl, fun _ _ => .rfl, fun j other => List.mem_erase_of_ne other,
      fun _ _ => .rfl, List.Subset.refl _⟩
  | newContext =>
    cases r with
    | error e => cases Option.some.inj hx; exact still
    | ok _ =>
      cases Option.some.inj hx
      refine ⟨rfl, fun _ _ => .rfl, fun _ _ => .rfl, fun _ _ => .rfl, fun j other => ?_, List.Subset.refl _⟩
      simp [other]
  | closeContext =>
    cases Option.some.inj hx
    exact ⟨rfl, fun _ _ => .rfl, fun _ _ => .rfl, fun _ _ => .rfl,
      fun j other => List.mem_erase_of_ne other, List.Subset.refl _⟩
  | record url result =>
    cases Option.some.inj hx
    refine ⟨rfl, fun _ _ => .rfl, fun _ _ => .rfl, fun _ _ => .rfl, fun _ _ => .rfl, fun key old => ?_⟩
    simp only [Batch.keys, setResult_keys] at old ⊢
    split
    next => exact old
    next => exact List.mem_append_left _ old
  | extract | newPage | goto | waitForSelector | pageUrl | content =>
    cases Option.some.inj hx
    exact still

theorem scrapeExec_kept {s : ScrapeStmt} {r : ScrapeAnswer s} (kept : b.Kept urls concurrency)
    (stands : m.At i b) (asked : m.Asked s) (hx : scrapeExec i s r b = some b') :
    b'.Kept urls concurrency ∧ (m.next s r).At i b' := by
  have length := kept.permits
  have outside : m.inside = false → i ∉ b.inside := fun out mem => by
    rw [stands.inside.mpr mem] at out
    exact Bool.noConfusion out
  have closed : m.opened = false → i ∉ b.contexts := fun out mem => by
    rw [stands.opened.mpr mem] at out
    exact Bool.noConfusion out
  cases s with
  | acquire =>
    simp only [scrapeExec] at hx
    split at hx
    next free =>
      cases Option.some.inj hx
      constructor
      · refine { kept with
          permits := ?_
          inside_nodup := List.nodup_cons.mpr ⟨outside asked.1, kept.inside_nodup⟩
          contexts_inside := fun j hj => List.mem_cons_of_mem _ (kept.contexts_inside hj)
          inside_started := List.cons_subset.mpr ⟨stands.started, kept.inside_started⟩ }
        change b.value - 1 + (i :: b.inside).length = concurrency
        rw [List.length_cons]
        omega
      · exact { stands with inside := ⟨fun _ => List.mem_cons_self, fun _ => rfl⟩ }
    next => simp at hx
  | release =>
    cases Option.some.inj hx
    have mem := stands.inside.mp asked.1
    have shorter := List.length_erase_of_mem mem
    have positive := List.length_pos_of_mem mem
    constructor
    · refine { kept with
        permits := ?_
        inside_nodup := kept.inside_nodup.erase i
        contexts_inside := fun j hj => ?_
        inside_started := fun j hj => kept.inside_started (List.mem_of_mem_erase hj) }
      · change b.value + 1 + (b.inside.erase i).length = concurrency
        omega
      · refine (List.mem_erase_of_ne ?_).mpr (kept.contexts_inside hj)
        rintro rfl
        exact closed asked.2 hj
    · exact { stands with inside := ⟨fun h => Bool.noConfusion h, fun h => absurd h kept.inside_nodup.not_mem_erase⟩ }
  | newContext =>
    cases r with
    | error e => cases Option.some.inj hx; exact ⟨kept, stands⟩
    | ok _ =>
      cases Option.some.inj hx
      constructor
      · exact { kept with
          contexts_nodup := List.nodup_cons.mpr ⟨closed asked.2, kept.contexts_nodup⟩
          contexts_inside := List.cons_subset.mpr ⟨stands.inside.mp asked.1, kept.contexts_inside⟩ }
      · exact { stands with opened := ⟨fun _ => List.mem_cons_self, fun _ => rfl⟩ }
  | closeContext =>
    cases Option.some.inj hx
    constructor
    · exact { kept with
        contexts_nodup := kept.contexts_nodup.erase i
        contexts_inside := fun j hj => kept.contexts_inside (List.mem_of_mem_erase hj) }
    · exact { stands with
        opened := ⟨fun h => Bool.noConfusion h, fun h => absurd h kept.contexts_nodup.not_mem_erase⟩ }
  | record url result =>
    cases Option.some.inj hx
    have known : url ∈ urls := by
      rw [asked.1, ← kept.urls_eq]
      exact List.mem_of_getElem? stands.url
    have keys := setResult_keys b.results url result
    constructor
    · by_cases again : url ∈ b.results.map (·.1)
      · rw [if_pos again] at keys
        exact { kept with
          keys_nodup := (congrArg List.Nodup keys).mpr kept.keys_nodup
          keys_urls := fun key mem => kept.keys_urls ((keys ▸ mem : key ∈ b.results.map (·.1))) }
      · rw [if_neg again] at keys
        exact { kept with
          keys_nodup := (congrArg List.Nodup keys).mpr (List.nodup_append.mpr ⟨kept.keys_nodup,
            List.nodup_singleton _, fun a ha c hc same => again (List.mem_singleton.mp hc ▸ same ▸ ha)⟩)
          keys_urls := fun key mem => List.append_subset.mpr ⟨kept.keys_urls, by simpa using known⟩
            (keys ▸ mem : key ∈ b.results.map (·.1) ++ [url]) }
    · refine { stands with recorded := fun _ => ?_ }
      change m.url ∈ (setResult b.results url result).map (·.1)
      rw [keys, ← asked.1]
      split
      next again => exact again
      next => exact List.mem_append_right _ (List.mem_singleton_self url)
  | extract | newPage | goto | waitForSelector | pageUrl | content =>
    cases Option.some.inj hx
    exact ⟨kept, stands⟩

theorem cancel_beside (b : Batch) (i : Nat) : Batch.Beside i b (b.cancel i) :=
  ⟨rfl, fun _ _ => .rfl, fun j other => by simp [Batch.cancel, other], fun j other => by simp [Batch.cancel, other],
    fun j other => by simp [Batch.cancel, other], List.Subset.refl _⟩

theorem Batch.Kept.cancel (h : b.Kept urls concurrency) (i : Nat) : (b.cancel i).Kept urls concurrency := by
  have length := h.permits
  have counts : b.inside.length = b.inside.count i + (b.inside.filter (· ≠ i)).length := by
    rw [List.length_eq_countP_add_countP (· == i), List.count, ← List.countP_eq_length_filter]
    simp
  refine { h with
    permits := ?_
    inside_nodup := h.inside_nodup.filter _
    contexts_nodup := h.contexts_nodup.filter _
    contexts_inside := fun j hj => ?_
    inside_started := fun j hj => h.inside_started (List.mem_filter.mp hj).1 }
  · change b.value + b.inside.count i + (b.inside.filter (· ≠ i)).length = concurrency
    omega
  · obtain ⟨mem, other⟩ := List.mem_filter.mp hj
    exact List.mem_filter.mpr ⟨h.contexts_inside mem, other⟩

theorem readPage_within (lib : ScrapeLib) (timeoutMs : Nat) (url : String) : (readPage lib timeoutMs url).Within 5 := by
  intro page
  cases page with
  | error e => exact True.intro
  | ok _ =>
    intro loaded
    cases loaded with
    | error e => exact True.intro
    | ok _ =>
      intro _ finalUrl html
      cases html with
      | error e => exact True.intro
      | ok html => cases result : pageResult lib finalUrl html <;> simp [result, Within]

theorem scrapeViaBrowser_within (lib : ScrapeLib) (timeoutMs : Nat) (url : String) :
    (scrapeViaBrowser lib timeoutMs url).Within 8 := by
  intro context
  cases context with
  | error e => exact fun _ => True.intro
  | ok _ =>
    refine Within.bind (p := readPage lib timeoutMs url) (readPage_within lib timeoutMs url) (m := 2) fun read => ?_
    cases read with
    | error e => intro _ closed; cases closed <;> exact True.intro
    | ok result => intro _ closed; cases closed <;> exact True.intro

theorem scrapeOne_within (lib : ScrapeLib) (timeoutMs : Nat) (url : String) :
    (scrapeOne lib timeoutMs url).Within 11 := by
  intro _
  refine Within.within (n := 9) ?_ (m := 1) fun _ => True.intro
  have browser := scrapeViaBrowser_within lib timeoutMs url
  split
  next => exact browser.mono (by decide)
  next extractor found =>
    intro article
    rcases article with _ | _ | article
    · exact browser
    · exact browser
    · exact fun _ => True.intro

/-- What holds of a batch as its tasks run: a task that has started is alive until it is cancelled. -/
structure ScrapeKept (urls : List String) (concurrency : Nat) (w : ScrapeWorld) : Prop where
  batch : w.data.Kept urls concurrency
  staged : Staged (fun _ => watched) (fun _ => Over) At w
  bounded : ∀ i p l, w.proc i = some (p, l) → p.Within 11
  alive : ∀ i ∈ w.data.started, (∃ p l, w.proc i = some (p, l)) ∨ i ∉ w.data.inside ∧ i ∈ w.data.gone

theorem newBatch_kept (urls : List String) (concurrency : Nat) :
    ScrapeKept urls concurrency ⟨newBatch urls concurrency, fun _ => none⟩ :=
  ⟨⟨rfl, rfl, .nil, .nil, List.Subset.refl _, List.Subset.refl _, .nil, List.nil_subset _⟩,
    fun _ _ _ live => (by cases live), fun _ _ _ live => (by cases live),
    fun _ started => absurd started List.not_mem_nil⟩

theorem ScrapeKept.set {w : ScrapeWorld} (h : ScrapeKept urls concurrency w) {q : Option (ScrapeProgram Unit × Unit)}
    (batch : b'.Kept urls concurrency) (beside : Batch.Beside i w.data b')
    (own : ∀ p l, q = some (p, l) → p.Within 11 ∧ ∃ m : ScrapeStage,
      p.Obeys watched (fun m _ => m.Over) (fun m _ => m.Over) m ∧ m.At i b')
    (none : q = none → i ∉ b'.inside ∧ i ∈ b'.gone) : ScrapeKept urls concurrency (w.set i q b') := by
  refine ⟨batch, h.staged.set (fun j m other at_ => at_.beside other beside) fun p l live => (own p l live).2,
    fun j p l live => ?_, fun j started => ?_⟩
  · by_cases same : j = i
    · subst j
      rw [World.set_self] at live
      exact (own p l live).1
    · rw [World.set_other w same] at live
      exact h.bounded j p l live
  · by_cases same : j = i
    · subst j
      rw [World.set_self]
      cases q with
      | none => exact .inr (none rfl)
      | some pl => exact .inl ⟨pl.1, pl.2, rfl⟩
    · rw [World.set_other w same]
      refine (h.alive j ((beside.started j same).mp started)).imp_right fun past => ?_
      exact ⟨fun mem => past.1 ((beside.inside j same).mp mem), (beside.gone j same).mpr past.2⟩

theorem ScrapeKept.step {w w' : ScrapeWorld} (h : ScrapeKept urls concurrency w)
    (step : Step (scrapeSys lib timeoutMs) w w') : ScrapeKept urls concurrency w' := by
  cases step with
  | @exec i s next l l' d' r hp hx =>
    obtain ⟨b', hb, eq⟩ := Option.map_eq_some_iff.mp hx
    obtain ⟨-, rfl⟩ := Prod.mk.inj eq
    obtain ⟨m, obeys, stands⟩ := h.staged i _ _ hp
    obtain ⟨kept, stands'⟩ := scrapeExec_kept h.batch stands obeys.1 hb
    refine h.set kept (scrapeExec_beside hb) (fun p l live => ?_) fun none => by cases none
    obtain ⟨rfl, rfl⟩ := Prod.mk.inj (Option.some.inj live)
    have shorter : (next r).Within 10 := h.bounded i _ _ hp r
    exact ⟨shorter.mono (by decide), _, obeys.2 r True.intro, stands'⟩
  | @start i j p d' hp hs =>
    simp only [scrapeSys] at hs
    split at hs
    next => simp at hs
    next url found =>
      split at hs
      next => simp at hs
      next fresh =>
        obtain ⟨rfl, rfl⟩ := Prod.mk.inj (Option.some.inj hs)
        have unstarted : i ∉ w.data.started := by simpa using fresh
        have outside : i ∉ w.data.inside := fun mem => unstarted (h.batch.inside_started mem)
        have closed : i ∉ w.data.contexts := fun mem => outside (h.batch.contexts_inside mem)
        have starts : Batch.Beside i w.data { w.data with started := i :: w.data.started } :=
          ⟨rfl, fun j other => by simp [other], fun _ _ => .rfl, fun _ _ => .rfl, fun _ _ => .rfl, List.Subset.refl _⟩
        refine h.set { h.batch with
          inside_started := fun j mem => List.mem_cons_of_mem _ (h.batch.inside_started mem) } starts
          (fun p l live => ?_) fun none => by cases none
        obtain ⟨rfl, rfl⟩ := Prod.mk.inj (Option.some.inj live)
        refine ⟨scrapeOne_within lib timeoutMs url, _, scrapeOne_watched lib timeoutMs url, ?_⟩
        exact ⟨found, List.mem_cons_self, ⟨Bool.noConfusion, fun mem => absurd mem outside⟩,
          ⟨Bool.noConfusion, fun mem => absurd mem closed⟩, Bool.noConfusion⟩
  | @stop i hp =>
    refine h.set (h.batch.cancel i) (cancel_beside w.data i) (fun p l live => by cases live) fun _ => ?_
    exact ⟨by simp [scrapeSys, Batch.cancel], List.mem_cons_self⟩
  | @env e d' he => exact e.elim

theorem ScrapeKept.steps {w w' : ScrapeWorld} (h : ScrapeKept urls concurrency w)
    (run : Steps (scrapeSys lib timeoutMs) w w') : ScrapeKept urls concurrency w' := by
  induction run with
  | refl => exact h
  | tail _ step ih => exact ih.step step

theorem scrapeSys_kept {w : ScrapeWorld} (run : Reachable (scrapeSys lib timeoutMs) (newBatch urls concurrency) w) :
    ScrapeKept urls concurrency w :=
  (newBatch_kept urls concurrency).steps run

/-- A scrape that has ended is over. -/
theorem ScrapeKept.ended {w : ScrapeWorld} (h : ScrapeKept urls concurrency w) {p : ScrapeProgram Unit} {l : Unit}
    (live : w.proc i = some (p, l)) (ended : p.Ended) : ∃ m : ScrapeStage, m.Over ∧ m.At i w.data := by
  obtain ⟨m, obeys, stands⟩ := h.staged i p l live
  cases p with
  | ret a => exact ⟨m, obeys, stands⟩
  | raise e => exact ⟨m, obeys, stands⟩
  | stmt s next => exact ended.elim

/-- Whoever is inside the semaphore is still running. -/
theorem ScrapeKept.running {w : ScrapeWorld} (h : ScrapeKept urls concurrency w) (mem : i ∈ w.data.inside) :
    ∃ p l, w.proc i = some (p, l) ∧ ¬p.Ended := by
  rcases h.alive i (h.batch.inside_started mem) with ⟨p, l, live⟩ | past
  · refine ⟨p, l, live, fun ended => ?_⟩
    obtain ⟨m, past, stands⟩ := h.ended live ended
    exact Bool.noConfusion (past.1.symm.trans (stands.inside.mpr mem))
  · exact absurd mem past.1

/-- However the tasks interleave, no more than `concurrency` contexts are open, each of a task that is
still running inside the semaphore, and a batch whose tasks have all ended has every permit back. -/
theorem scrape_concurrency {w : ScrapeWorld}
    (run : Reachable (scrapeSys lib timeoutMs) (newBatch urls concurrency) w) :
    w.data.value + w.data.inside.length = concurrency ∧ w.data.contexts.Nodup ∧
      w.data.contexts.length ≤ concurrency ∧
      (∀ i ∈ w.data.contexts, i ∈ w.data.inside ∧ ∃ p l, w.proc i = some (p, l) ∧ ¬p.Ended) ∧
      ((∀ i, w.Ended i) → w.data.value = concurrency ∧ w.data.contexts = []) := by
  have kept := scrapeSys_kept run
  have permits := kept.batch.permits
  have within := (List.subperm_of_subset kept.batch.contexts_nodup kept.batch.contexts_inside).length_le
  refine ⟨permits, kept.batch.contexts_nodup, by omega,
    fun i mem => ⟨kept.batch.contexts_inside mem, kept.running (kept.batch.contexts_inside mem)⟩, fun ended => ?_⟩
  have nobody : w.data.inside = [] := by
    refine List.eq_nil_iff_forall_not_mem.mpr fun i mem => ?_
    obtain ⟨p, l, live, open_⟩ := kept.running mem
    exact open_ (ended i p l live)
  rw [nobody] at permits
  exact ⟨permits, List.subset_nil.mp (nobody ▸ kept.batch.contexts_inside)⟩

def sampleScrapeLib : ScrapeLib where
  loads _ := some (.obj [("text", .str "news"), ("date", .str "2026-01-02")])
  extract _ := .ok (some "page")
  str _ := "error"

def samplePages : List String := ["https://a.example/x", "https://b.example/y"]

def sampleBrowser (_ : Unit) (_ : Batch) : (s : ScrapeStmt) → Option (ScrapeAnswer s)
  | .extract _ _ => some (.ok none)
  | .pageUrl => some "https://a.example/final"
  | .content => some (.ok "page")
  | .newContext | .newPage | .closeContext => some (.ok ())
  | .goto _ _ | .waitForSelector _ _ => some (.ok ())
  | .acquire | .release | .record _ _ => some ()

/-- Both tasks start, and those named execute in turn. -/
def sampleScrapes (turns : List Nat) : Option ScrapeWorld :=
  (scrapeSys sampleScrapeLib 1000).run ⟨newBatch samplePages 1, fun _ => none⟩
    (.start 0 () :: .start 1 () :: turns.map fun i => .exec i sampleBrowser)

theorem scrape_concurrency_sample : ∃ w : ScrapeWorld,
    Reachable (scrapeSys sampleScrapeLib 1000) (newBatch samplePages 1) w ∧ w.data.contexts = [0] ∧
      w.data.contexts.length ≤ 1 := by
  have opens : (sampleScrapes [0, 0]).map (fun w => decide (w.data.contexts = [0])) = some true := by decide +kernel
  obtain ⟨w, run, seen⟩ := Sys.run_reaches opens
  exact ⟨w, run, of_decide_eq_true seen, (scrape_concurrency run).2.2.1⟩

end NewsNotifier
