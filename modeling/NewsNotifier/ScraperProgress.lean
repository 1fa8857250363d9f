import NewsNotifier.ScraperOutcomes

namespace NewsNotifier

open Interleaving Prog ScrapeStage

variable {lib : ScrapeLib} {timeoutMs concurrency : Nat} {urls : List String} {b : Batch} {w w' : ScrapeWorld}

/-- Every statement but the entry to the semaphore can be answered. -/
theorem scrapeExec_free {s : ScrapeStmt} (i : Nat) (b : Batch) (h : s ≠ .acquire ∨ 0 < b.value) :
    ∃ r b', scrapeExec i s r b = some b' := by
  cases s with
  | acquire =>
    have free := h.resolve_left fun other => other rfl
    exact ⟨(), _, if_pos free⟩
  | extract => exact ⟨.error (), b, rfl⟩
  | newContext => exact ⟨.error "", b, rfl⟩
  | closeContext => exact ⟨.error "", _, rfl⟩
  | newPage | goto | waitForSelector | content => exact ⟨.error "", b, rfl⟩
  | pageUrl => exact ⟨"", b, rfl⟩
  | release | record => exact ⟨(), _, rfl⟩

theorem scrape_fires {i : Nat} {s : ScrapeStmt} {next : ScrapeAnswer s → ScrapeProgram Unit} {l : Unit}
    (kept : ScrapeKept urls concurrency w) (hp : w.proc i = some (.stmt s next, l))
    (free : s ≠ .acquire ∨ 0 < w.data.value) :
    ∃ w', Fires (scrapeSys lib timeoutMs) (List.range urls.length) w w' := by
  obtain ⟨m, obeys, stands⟩ := kept.staged i _ _ hp
  have mem : i ∈ List.range urls.length := by
    rw [List.mem_range]
    exact (List.getElem?_eq_some_iff.mp (kept.batch.urls_eq ▸ stands.url)).1
  obtain ⟨r, b', hb⟩ := scrapeExec_free i w.data free
  have hx : (scrapeSys lib timeoutMs).exec i s r l w.data = some ((), b') := by simp [scrapeSys, hb]
  exact ⟨_, .exec mem r hp hx⟩

/-- Where there is a permit at all, some unfinished task can execute: if none is free, the one that has it. -/
theorem scrape_free {i : Nat} (permit : 0 < concurrency) (kept : ScrapeKept urls concurrency w) (open_ : ¬w.Ended i) :
    ∃ w', Fires (scrapeSys lib timeoutMs) (List.range urls.length) w w' := by
  have unended : ∃ p l, w.proc i = some (p, l) ∧ ¬p.Ended := by
    simpa [World.Ended] using open_
  by_cases free : 0 < w.data.value
  · obtain ⟨p, l, live, unended⟩ := unended
    cases p with
    | ret a => exact absurd True.intro unended
    | raise e => exact absurd True.intro unended
    | stmt s next => exact scrape_fires kept live (.inr free)
  · have permits := kept.batch.permits
    obtain ⟨j, inside⟩ := List.exists_mem_of_length_pos (l := w.data.inside) (by omega)
    obtain ⟨p, l, live, unended⟩ := kept.running inside
    cases p with
    | ret a => exact absurd True.intro unended
    | raise e => exact absurd True.intro unended
    | stmt s next =>
      refine scrape_fires kept live (.inl ?_)
      rintro rfl
      obtain ⟨m, obeys, stands⟩ := kept.staged j _ _ live
      exact Bool.noConfusion (obeys.1.1.symm.trans (stands.inside.mpr inside))

/-- A statement starts and cancels no task. -/
theorem scrapeExec_tasks {i : Nat} {s : ScrapeStmt} {r : ScrapeAnswer s} {b b' : Batch}
    (hx : scrapeExec i s r b = some b') : b'.started = b.started ∧ b'.gone = b.gone := by
  cases s with
  | acquire =>
    simp only [scrapeExec] at hx
    split at hx
    next => cases Option.some.inj hx; exact ⟨rfl, rfl⟩
    next => simp at hx
  | newContext => cases r <;> (cases Option.some.inj hx; exact ⟨rfl, rfl⟩)
  | release | closeContext | record | extract | newPage | goto | waitForSelector | pageUrl | content =>
    cases Option.some.inj hx
    exact ⟨rfl, rfl⟩

theorem fires_tasks {is : List Nat} (run : Relation.ReflTransGen (Fires (scrapeSys lib timeoutMs) is) w w') :
    w'.data.started = w.data.started ∧ w'.data.gone = w.data.gone := by
  induction run with
  | refl => exact ⟨rfl, rfl⟩
  | tail _ fires ih =>
    cases fires with
    | exec mem r hp hx =>
      obtain ⟨b', hb, eq⟩ := Option.map_eq_some_iff.mp hx
      obtain ⟨-, rfl⟩ := Prod.mk.inj eq
      obtain ⟨started, gone⟩ := scrapeExec_tasks hb
      exact ⟨started.trans ih.1, gone.trans ih.2⟩

theorem scrape_without_permits (run : Reachable (scrapeSys lib timeoutMs) (newBatch urls 0) w) :
    w.data.results = [] := by
  induction run with
  | refl => rfl
  | @tail w₁ w₂ before step ih =>
    have kept := scrapeSys_kept before
    cases step with
    | @exec i s next l l' d' r hp hx =>
      obtain ⟨b', hb, eq⟩ := Option.map_eq_some_iff.mp hx
      obtain ⟨-, rfl⟩ := Prod.mk.inj eq
      by_contra some_
      obtain ⟨⟨key, result⟩, mem⟩ := List.exists_mem_of_ne_nil _ some_
      obtain rfl := scrapeExec_records hb (by simp [ih]) mem
      obtain ⟨m, obeys, stands⟩ := kept.staged i _ _ hp
      have inside := List.length_pos_of_mem (stands.inside.mp obeys.1.2)
      have permits := kept.batch.permits
      omega
    | start hp hs =>
      obtain ⟨_, _, _, same⟩ := scrapeSys_starts hs
      exact same.trans ih
    | stop hp => exact ih
    | @env e d' he => exact e.elim

/-- The tasks that are still to be started can be. -/
theorem start_rest (run : Reachable (scrapeSys lib timeoutMs) (newBatch urls concurrency) w) (n : Nat)
    (short : n ≤ urls.length) : ∃ v, Steps (scrapeSys lib timeoutMs) w v ∧ v.data.gone = w.data.gone ∧
      v.data.results = w.data.results ∧ ∀ i < n, i ∈ v.data.started := by
  induction n with
  | zero => exact ⟨w, .refl, rfl, rfl, fun i none => absurd none (Nat.not_lt_zero i)⟩
  | succ n ih =>
    obtain ⟨v, steps, gone, results, started⟩ := ih (by omega)
    by_cases begun : n ∈ v.data.started
    · refine ⟨v, steps, gone, results, fun i below => ?_⟩
      rcases Nat.lt_succ_iff_lt_or_eq.mp below with below | rfl
      · exact started i below
      · exact begun
    · have kept := scrapeSys_kept (run.trans steps)
      have idle : v.proc n = none := by
        by_contra live
        obtain ⟨⟨p, l⟩, live⟩ := Option.ne_none_iff_exists'.mp live
        obtain ⟨m, _, stands⟩ := kept.staged n p l live
        exact begun stands.started
      obtain ⟨url, found⟩ : ∃ url, v.data.urls[n]? = some url := by
        rw [kept.batch.urls_eq]
        exact ⟨_, List.getElem?_eq_getElem short⟩
      have starts : (scrapeSys lib timeoutMs).start n () v.data =
          some (scrapeOne lib timeoutMs url, { v.data with started := n :: v.data.started }) := by
        simp [scrapeSys, found, begun]
      refine ⟨_, steps.tail (.start idle starts), gone, results, fun i below => ?_⟩
      rcases Nat.lt_succ_iff_lt_or_eq.mp below with below | rfl
      · exact List.mem_cons_of_mem _ (started i below)
      · exact List.mem_cons_self

/-- From any state of a run with a permit the tasks that have started can be run to their ends. -/
theorem scrape_ends (permit : 0 < concurrency)
    (run : Reachable (scrapeSys lib timeoutMs) (newBatch urls concurrency) w) :
    ∃ w', Relation.ReflTransGen (Fires (scrapeSys lib timeoutMs) (List.range urls.length)) w w' ∧ (∀ i, w'.Ended i) ∧
      ∀ i url, urls[i]? = some url → i ∈ w.data.started → i ∉ w.data.gone → url ∈ w'.data.keys := by
  have kept := scrapeSys_kept run
  have bound : Left (List.range urls.length) (fun _ => 11) w := fun i _ p l live => kept.bounded i p l live
  have listed : ∀ {w : ScrapeWorld}, ScrapeKept urls concurrency w → ∀ i, i ∉ List.range urls.length → w.Ended i := by
    intro w kept i out p l live
    obtain ⟨m, _, stands⟩ := kept.staged i p l live
    have inside := (List.getElem?_eq_some_iff.mp (kept.batch.urls_eq ▸ stands.url)).1
    exact absurd (List.mem_range.mpr inside) out
  obtain ⟨w', fired, kept', ended⟩ := completes (S := scrapeSys lib timeoutMs) (I := ScrapeKept urls concurrency)
    (fun _ _ kept fires => kept.step fires.step) (fun w kept ⟨i, _, open_⟩ => scrape_free permit kept open_) bound kept
  have all : ∀ i, w'.Ended i := fun i => by
    by_cases mem : i ∈ List.range urls.length
    · exact ended i mem
    · exact listed kept' i mem
  have reach : Reachable (scrapeSys lib timeoutMs) (newBatch urls concurrency) w' :=
    run.trans (fired.lift id fun _ _ fires => fires.step)
  obtain ⟨started, gone⟩ := fires_tasks fired
  refine ⟨w', fired, all, fun i url found begun here => ?_⟩
  exact (scrape_outcomes reach).2.2.1 i url found (started ▸ begun) (gone ▸ here) (all i)

/-- With a permit a batch cannot stop short of its end nor go on for ever, and from any state of any run
the tasks that have started can be run to their ends; once the rest have been started too, with an entry
for every url whose task was not cancelled. Without a permit it never has an entry. -/
theorem scrape_completes (run : Reachable (scrapeSys lib timeoutMs) (newBatch urls concurrency) w) :
    (0 < concurrency →
      ((∀ w', ¬Fires (scrapeSys lib timeoutMs) (List.range urls.length) w w') → ∀ i, w.Ended i) ∧
      (∀ path : Nat → ScrapeWorld, path 0 = w →
        ¬∀ n, Fires (scrapeSys lib timeoutMs) (List.range urls.length) (path n) (path (n + 1))) ∧
      (∃ w', Relation.ReflTransGen (Fires (scrapeSys lib timeoutMs) (List.range urls.length)) w w' ∧
        (∀ i, w'.Ended i) ∧ ∀ i url, urls[i]? = some url → i ∈ w.data.started → i ∉ w.data.gone →
          url ∈ w'.data.keys) ∧
      ∃ v w', Steps (scrapeSys lib timeoutMs) w v ∧ v.data.gone = w.data.gone ∧ v.data.results = w.data.results ∧
        (∀ i < urls.length, i ∈ v.data.started) ∧
        Relation.ReflTransGen (Fires (scrapeSys lib timeoutMs) (List.range urls.length)) v w' ∧
        (∀ i, w'.Ended i) ∧ ∀ i url, urls[i]? = some url → i ∉ w.data.gone → url ∈ w'.data.keys) ∧
      (concurrency = 0 → w.data.results = []) := by
  have kept := scrapeSys_kept run
  have bound : Left (List.range urls.length) (fun _ => 11) w := fun i _ p l live => kept.bounded i p l live
  refine ⟨fun permit => ⟨fun stuck i => ?_, fun path start => not_endless bound start, scrape_ends permit run, ?_⟩, ?_⟩
  · by_contra open_
    obtain ⟨w', fires⟩ := scrape_free permit kept open_
    exact stuck w' fires
  · obtain ⟨v, steps, gone, results, started⟩ := start_rest run urls.length le_rfl
    obtain ⟨w', fired, ended, entries⟩ := scrape_ends permit (run.trans steps)
    refine ⟨v, w', steps, gone, results, started, fired, ended, fun i url found here => ?_⟩
    have below := (List.getElem?_eq_some_iff.mp found).1
    exact entries i url found (started i below) (gone ▸ here)
  · rintro rfl
    exact scrape_without_permits run

/-- One task has been started and has the permit; the other one is still to come. -/
def oneStarted : List (Move Nat ScrapeStmt ScrapeAnswer Unit Batch Unit Empty) := [.start 0 (), .exec 0 sampleBrowser]

theorem scrape_completes_sample : ∃ w : ScrapeWorld,
    Reachable (scrapeSys sampleScrapeLib 1000) (newBatch samplePages 1) w ∧ w.data.started = [0] ∧
      ∃ w' : ScrapeWorld, (∀ i, w'.Ended i) ∧ "https://a.example/x" ∈ w'.data.keys ∧
        "https://b.example/y" ∈ w'.data.keys := by
  obtain ⟨w, run, seen⟩ := Sys.run_reaches (p := fun w => w.data.started = [0] ∧ w.data.gone = [])
    (show ((scrapeSys sampleScrapeLib 1000).run ⟨newBatch samplePages 1, fun _ => none⟩ oneStarted).map _ = some true by
      decide +kernel)
  obtain ⟨started, gone⟩ := of_decide_eq_true seen
  obtain ⟨v, w', _, _, _, _, _, ended, entries⟩ := ((scrape_completes run).1 (by decide)).2.2.2
  exact ⟨w, run, started, w', ended, entries 0 _ rfl (by simp [gone]), entries 1 _ rfl (by simp [gone])⟩

end NewsNotifier
