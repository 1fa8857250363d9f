import NewsNotifier.ExecutionOrigins
import NewsNotifier.ScraperBatches

namespace NewsNotifier

open Interleaving Prog ScrapeStage

/-- No extractor handles the url, or the one that does has not given an article. -/
def FallsThrough (url : String) (said : List (Said ScrapeAnswer)) : Prop :=
  ∀ extractor, findExtractor url = some extractor →
    ∃ r, ⟨.extract extractor.name url, r⟩ ∈ said ∧ ∀ article, r ≠ .ok (some article)

/-- A step of the browser, or what was made of its page, failed with this text. -/
inductive PageFails (lib : ScrapeLib) (said : List (Said ScrapeAnswer)) (error : String) : Prop
  | context (h : ⟨.newContext, .error error⟩ ∈ said)
  | page (h : ⟨.newPage, .error error⟩ ∈ said)
  | load (url : String) (timeoutMs : Nat) (h : ⟨.goto url timeoutMs, .error error⟩ ∈ said)
  | content (h : ⟨.content, .error error⟩ ∈ said)
  | parse (finalUrl html : String) (e : PyError) (located : ⟨.pageUrl, finalUrl⟩ ∈ said)
      (read : ⟨.content, .ok html⟩ ∈ said) (fails : pageResult lib finalUrl html = .error e) (text : error = lib.str e)

/-- The entry of a url is the extractor's article or what became of the page, from what was said to
the task of this url alone. -/
inductive PageOutcome (lib : ScrapeLib) (url : String) (said : List (Said ScrapeAnswer)) : Scraped → Prop
  | article (extractor : DomainExtractor) (article : Article) (found : findExtractor url = some extractor)
      (answered : ⟨.extract extractor.name url, .ok (some article)⟩ ∈ said) :
        PageOutcome lib url said (articleResult article)
  | page (finalUrl html : String) (result : Scraped) (through : FallsThrough url said)
      (located : ⟨.pageUrl, finalUrl⟩ ∈ said) (read : ⟨.content, .ok html⟩ ∈ said)
      (made : pageResult lib finalUrl html = .ok result) : PageOutcome lib url said result
  | failed (error : String) (through : FallsThrough url said) (fails : PageFails lib said error) :
    PageOutcome lib url said (failedScrape url error)

/-- What a scrape of a url records is an outcome of what was said before. -/
def Records (lib : ScrapeLib) (url : String) (said : List (Said ScrapeAnswer)) : ScrapeStmt → Prop
  | .record key result => key = url ∧ PageOutcome lib url said result
  | _ => True

variable {lib : ScrapeLib} {timeoutMs concurrency : Nat} {url : String} {urls : List String}
  {known : List (Said ScrapeAnswer)}

theorem FallsThrough.mono {said more : List (Said ScrapeAnswer)} (h : FallsThrough url said) (sub : said ⊆ more) :
    FallsThrough url more := by
  intro extractor found
  obtain ⟨r, answered, declined⟩ := h extractor found
  exact ⟨r, sub answered, declined⟩

theorem PageOutcome.mono {said more : List (Said ScrapeAnswer)} {result : Scraped} (h : PageOutcome lib url said result)
    (sub : said ⊆ more) : PageOutcome lib url more result := by
  cases h with
  | article extractor article found answered => exact .article extractor article found (sub answered)
  | page finalUrl html _ through located read made =>
    exact .page finalUrl html _ (through.mono sub) (sub located) (sub read) made
  | failed error through fails =>
    refine .failed error (through.mono sub) ?_
    cases fails with
    | context h => exact .context (sub h)
    | page h => exact .page (sub h)
    | load url timeoutMs h => exact .load url timeoutMs (sub h)
    | content h => exact .content (sub h)
    | parse finalUrl html e located read fails text => exact .parse finalUrl html e (sub located) (sub read) fails text

theorem record_knowing {result : Scraped} {next : Unit → ScrapeProgram Unit}
    (outcome : PageOutcome lib url known result)
    (rest : ∀ r, (next r).Knowing (Records lib url) (⟨.record url result, r⟩ :: known)) :
    (Prog.stmt (.record url result) next).Knowing (Records lib url) known :=
  .stmt (fun _ sub => ⟨rfl, outcome.mono sub⟩) rest

/-- The entry that is made once the page has been read. -/
def entryOf (url : String) : Except String Scraped → Scraped
  | .error e => failedScrape url e
  | .ok result => result

theorem readPage_knowing {k : Except String Scraped → ScrapeProgram Unit} (through : FallsThrough url known)
    (rest : ∀ more read, known ⊆ more → PageOutcome lib url more (entryOf url read) →
      (k read).Knowing (Records lib url) more) :
    ((readPage lib timeoutMs url).bind k).Knowing (Records lib url) known := by
  have fails : ∀ more e, known ⊆ more → PageFails lib more e → (k (.error e)).Knowing (Records lib url) more :=
    fun more e sub h => rest more (.error e) sub (.failed e (through.mono sub) h)
  refine .stmt (fun _ _ => True.intro) fun page => ?_
  cases page with
  | error e => exact fails _ e (fun _ => .tail _) (.page List.mem_cons_self)
  | ok _ =>
    refine .stmt (fun _ _ => True.intro) fun loaded => ?_
    cases loaded with
    | error e => exact fails _ e (fun _ h => .tail _ (.tail _ h)) (.load url timeoutMs List.mem_cons_self)
    | ok _ =>
      refine .stmt (fun _ _ => True.intro) fun _ => .stmt (fun _ _ => True.intro) fun finalUrl =>
        .stmt (fun _ _ => True.intro) fun html => ?_
      have sub : ∀ more : List (Said ScrapeAnswer), ∀ a b c d e, more ⊆ a :: b :: c :: d :: e :: more :=
        fun more a b c d e _ h => .tail a (.tail b (.tail c (.tail d (.tail e h))))
      cases html with
      | error e => exact fails _ e (sub _ _ _ _ _ _) (.content List.mem_cons_self)
      | ok html =>
        cases made : pageResult lib finalUrl html with
        | error e =>
          simp only [pure_eq, ret_bind, made]
          exact fails _ (lib.str e) (sub _ _ _ _ _ _) (.parse finalUrl html e (.tail _ (.head _)) (.head _) made rfl)
        | ok result =>
          simp only [pure_eq, ret_bind, made]
          exact rest _ (.ok result) (sub _ _ _ _ _ _)
            (.page finalUrl html result (through.mono (sub _ _ _ _ _ _)) (.tail _ (.head _)) (.head _) made)

theorem scrapeViaBrowser_knowing (through : FallsThrough url known) :
    (scrapeViaBrowser lib timeoutMs url).Knowing (Records lib url) known := by
  have closes : ∀ more result, PageOutcome lib url more result →
      ((scrape (.record url result)).bind fun _ => closeContext).Knowing (Records lib url) more := by
    refine fun more result outcome => record_knowing outcome fun _ => .stmt (fun _ _ => True.intro) fun closed => ?_
    cases closed with
    | error e => exact .raise _
    | ok _ => exact .ret ()
  refine .stmt (fun _ _ => True.intro) fun context => ?_
  cases context with
  | error e =>
    exact record_knowing (.failed e (through.mono fun _ => .tail _) (.context List.mem_cons_self)) fun _ => .ret ()
  | ok _ =>
    refine readPage_knowing (through.mono fun _ => .tail _) fun more read _ outcome => ?_
    cases read with
    | error e => exact closes more _ outcome
    | ok result => exact closes more _ outcome

theorem scrapeOne_knowing (lib : ScrapeLib) (timeoutMs : Nat) (url : String) :
    (scrapeOne lib timeoutMs url).Knowing (Records lib url) [] := by
  refine .stmt (fun _ _ => True.intro) fun _ => Knowing.within ?_ (.stmt (fun _ _ => True.intro) fun _ => .ret ())
  split
  next none =>
    refine scrapeViaBrowser_knowing fun extractor found => ?_
    simp [none] at found
  next extractor found =>
    refine .stmt (fun _ _ => True.intro) fun answer => ?_
    have through : (∀ article, answer ≠ .ok (some article)) →
        FallsThrough url (⟨.extract extractor.name url, answer⟩ :: [⟨.acquire, ()⟩]) := by
      intro declined other same
      obtain rfl := Option.some.inj (found.symm.trans same)
      exact ⟨answer, List.mem_cons_self, declined⟩
    rcases answer with e | _ | article
    · exact scrapeViaBrowser_knowing (through fun _ h => by cases h)
    · exact scrapeViaBrowser_knowing (through fun _ h => by cases h)
    · exact record_knowing (.article extractor article found List.mem_cons_self) fun _ => .ret ()

theorem scrapeSys_starts {i : Nat} {j : Unit} {b b' : Batch} {p : ScrapeProgram Unit}
    (hs : (scrapeSys lib timeoutMs).start i j b = some (p, b')) :
    ∃ url, b.urls[i]? = some url ∧ p = scrapeOne lib timeoutMs url ∧ b'.results = b.results := by
  simp only [scrapeSys] at hs
  split at hs
  next => simp at hs
  next url found =>
    split at hs
    next => simp at hs
    next =>
      obtain ⟨rfl, rfl⟩ := Prod.mk.inj (Option.some.inj hs)
      exact ⟨url, found, rfl, rfl⟩

/-- A statement that makes an entry records it. -/
theorem scrapeExec_records {i : Nat} {s : ScrapeStmt} {r : ScrapeAnswer s} {b b' : Batch} {key : String}
    {result : Scraped} (hx : scrapeExec i s r b = some b') (unseen : (key, result) ∉ b.results)
    (now : (key, result) ∈ b'.results) : s = .record key result := by
  cases s with
  | record url made =>
    cases Option.some.inj hx
    rcases setResult_mem now with old | ⟨rfl, rfl⟩
    · exact absurd old unseen
    · rfl
  | acquire =>
    simp only [scrapeExec] at hx
    split at hx
    next => cases Option.some.inj hx; exact absurd now unseen
    next => simp at hx
  | newContext =>
    cases r <;> (cases Option.some.inj hx; exact absurd now unseen)
  | release | closeContext | extract | newPage | goto | waitForSelector | pageUrl | content =>
    cases Option.some.inj hx
    exact absurd now unseen

theorem execution_records {i : Nat} {v w : ScrapeWorld} {tr : List (Event ScrapeStmt ScrapeAnswer Unit Batch)}
    {e : Event ScrapeStmt ScrapeAnswer Unit Batch}
    (run : Execution (scrapeSys lib timeoutMs) i () v (tr ++ [e]) w) :
    ∃ url, v.data.urls[i]? = some url ∧ Records lib url (tr.map Event.said) e.stmt := by
  obtain ⟨p, d', hs⟩ := run.started
  obtain ⟨url, found, rfl, -⟩ := scrapeSys_starts hs
  refine ⟨url, found, run.recorded (G := fun _ _ _ => True) (Q := fun _ _ => True) (F := fun _ _ => True)
    (fun q d hq => ?_) (fun _ _ _ _ => True.intro) rfl⟩
  obtain ⟨url', found', rfl, -⟩ := scrapeSys_starts hq
  obtain rfl := Option.some.inj (found.symm.trans found')
  exact scrapeOne_knowing lib timeoutMs url [] (List.Subset.refl _)

/-- The tasks that have ended, cancelled ones apart, have each left one entry for its url, and each
entry is an outcome of what was said to a task of that url alone. -/
theorem scrape_outcomes {w : ScrapeWorld}
    (run : Reachable (scrapeSys lib timeoutMs) (newBatch urls concurrency) w) :
    w.data.keys.Nodup ∧ w.data.keys ⊆ urls ∧
      (∀ i url, urls[i]? = some url → i ∈ w.data.started → i ∉ w.data.gone → w.Ended i → url ∈ w.data.keys) ∧
      ∀ key result, (key, result) ∈ w.data.results → ∃ i v tr e v',
        urls[i]? = some key ∧ Execution (scrapeSys lib timeoutMs) i () v (tr ++ [e]) v' ∧
          Steps (scrapeSys lib timeoutMs) v' w ∧ e.stmt = .record key result ∧
          PageOutcome lib key (tr.map Event.said) result := by
  have kept := scrapeSys_kept run
  refine ⟨kept.batch.keys_nodup, kept.batch.keys_urls, fun i url found started here ended => ?_,
    fun key result mem => ?_⟩
  · obtain ⟨p, l, live⟩ := (kept.alive i started).resolve_right fun past => here past.2
    obtain ⟨m, past, stands⟩ := kept.ended live (ended p l live)
    have same : some m.url = some url := stands.url.symm.trans (kept.batch.urls_eq ▸ found)
    exact Option.some.inj same ▸ stands.recorded past.2.2
  · have start : ∀ {i j d p d'}, (scrapeSys lib timeoutMs).start i j d = some (p, d') →
        (key, result) ∈ d'.results → (key, result) ∈ d.results := by
      intro i j d p d' hs has
      obtain ⟨_, _, _, same⟩ := scrapeSys_starts hs
      exact same ▸ has
    obtain ⟨i, ⟨⟩, v, tr, e, w₁, w₂, reach, brings, rest⟩ := Steps.origin
      (P := fun b : Batch => (key, result) ∈ b.results) (fun _ => rfl) run start (fun has => has)
      (fun {x} => x.elim) List.not_mem_nil mem
    obtain ⟨_, _, _, hx, _⟩ := brings.executed
    obtain ⟨b', hb, eq⟩ := Option.map_eq_some_iff.mp hx
    obtain ⟨-, rfl⟩ := Prod.mk.inj eq
    have records := scrapeExec_records hb brings.unseen brings.holds
    obtain ⟨url, found, asked⟩ := execution_records brings.after
    rw [records] at asked
    obtain ⟨rfl, outcome⟩ := asked
    exact ⟨i, v, tr, e, w₂, (scrapeSys_kept reach).batch.urls_eq ▸ found, brings.after, rest, records, outcome⟩

def hasEnded (w : ScrapeWorld) (i : Nat) : Bool :=
  match w.proc i with
  | some (.stmt _ _, _) => false
  | _ => true

theorem hasEnded_ended {w : ScrapeWorld} {i : Nat} (h : hasEnded w i = true) : w.Ended i := by
  intro p l live
  rw [hasEnded, live] at h
  cases p with
  | stmt s next => exact Bool.noConfusion h
  | _ => exact True.intro

theorem scrape_outcomes_sample : ∃ (w : ScrapeWorld) (result : Scraped),
    Reachable (scrapeSys sampleScrapeLib 1000) (newBatch samplePages 1) w ∧ w.Ended 0 ∧ ¬w.Ended 1 ∧
      w.data.keys.Nodup ∧ ("https://a.example/x", result) ∈ w.data.results ∧ ∃ i v tr e v',
        samplePages[i]? = some "https://a.example/x" ∧
          Execution (scrapeSys sampleScrapeLib 1000) i () v (tr ++ [e]) v' ∧
          PageOutcome sampleScrapeLib "https://a.example/x" (tr.map Event.said) result := by
  have ends : (sampleScrapes [0, 0, 0, 0, 0, 0, 0, 0, 0, 0, 1]).map (fun w => hasEnded w 0 && !hasEnded w 1 &&
      decide (w.data.started = [1, 0] ∧ w.data.gone = [])) = some true := by decide +kernel
  obtain ⟨w, run, seen⟩ := Sys.run_reaches ends
  simp only [Bool.and_eq_true, Bool.not_eq_true', decide_eq_true_eq] at seen
  obtain ⟨⟨first, second⟩, started, gone⟩ := seen
  obtain ⟨once, _, entries, outcomes⟩ := scrape_outcomes run
  have ended := hasEnded_ended first
  have key := entries 0 "https://a.example/x" rfl (by simp [started]) (by simp [gone]) ended
  obtain ⟨⟨_, result⟩, mem, rfl⟩ := List.mem_map.mp key
  obtain ⟨i, v, tr, e, v', url, after, _, _, outcome⟩ := outcomes _ result mem
  refine ⟨w, result, run, ended, fun done => ?_, once, mem, i, v, tr, e, v', url, after, outcome⟩
  unfold hasEnded at second
  split at second
  next s next l live => exact done _ _ live
  next => exact Bool.noConfusion second

end NewsNotifier
