import NewsNotifier.MsnRefresh

namespace NewsNotifier

open Interleaving

theorem searchGroup_long {heads : List (List Char)} {p : Char → Bool} {least : Nat} {s found : String}
    (h : searchGroup heads p least s = some found) : least ≤ found.length := by
  obtain ⟨run, hr, rfl⟩ := Option.map_eq_some_iff.mp h
  obtain ⟨t, -, ht⟩ := List.exists_of_findSome?_eq_some hr
  obtain ⟨head, -, hh⟩ := List.exists_of_findSome?_eq_some ht
  simp only at hh
  split at hh
  next fits =>
    obtain rfl := Option.some.inj hh
    rw [String.length_ofList]
    exact fits.2
  next => simp at hh

theorem apikey_ne_empty {url key : String} (h : apikey url = some key) : key ≠ "" := by
  unfold apikey at h
  split at h
  next =>
    have long := searchGroup_long h
    intro empty
    rw [empty, String.length_empty] at long
    omega
  next => simp at h

/-- MSN has rotated the key: some page shows the fresh one, and some response to it has an article. -/
structure Rotation (lib : ArticleLib) (stale fresh : String) : Prop where
  rotated : stale ≠ fresh
  found : ∃ urls : List String, (urls.filterMap apikey).head? = some fresh
  served : ∃ resp : Response, resp.statusCode = 200 ∧ hasArticle lib resp = true

theorem Rotation.fresh_ne {lib : ArticleLib} {stale fresh : String} (h : Rotation lib stale fresh) :
    fresh ≠ "" := by
  obtain ⟨urls, found⟩ := h.found
  obtain ⟨url, -, key⟩ := List.mem_filterMap.mp (List.mem_of_head? found)
  exact apikey_ne_empty key

/-- A call that runs alone: only the clock moves, and what it returns is right. -/
def loneTerms (lib : ArticleLib) (url fresh : String) : Terms MsnState where
  inv g := g.results = [] ∨ SharedSniff lib [url] fresh g
  rely g g' := ∃ t : Nat, g' = { g with monotonic := g.monotonic + t }
  guar _ g' := g'.results = [] ∨ SharedSniff lib [url] fresh g'
  rely_refl g := ⟨0, by simp⟩
  rely_trans := by
    rintro g _ _ ⟨t, rfl⟩ ⟨u, rfl⟩
    refine ⟨t + u, ?_⟩
    simp only [Nat.cast_add, MsnState.mk.injEq, and_true, true_and]
    exact Int.add_assoc _ _ _

/-- Where a lone call stands. -/
structure MsnState.Phase (g : MsnState) (key : String) (lock : Option Nat) (n : Nat) : Prop where
  cached : g.cachedKey = key
  held : g.keyLock = lock
  started : g.sniffs.length = n
  unanswered : g.results = []
  due : n = 0 → g.refreshDue = true

variable {lib : ArticleLib} {stale fresh url cid key : String} {lock : Option Nat}
  {n : Nat} {g g' : MsnState} {α : Type}

theorem MsnState.refreshDue_later (h : g.refreshDue = true) (t : Nat) :
    MsnState.refreshDue { g with monotonic := g.monotonic + t } = true := by
  unfold MsnState.refreshDue at h ⊢
  cases hl : g.lastRefresh with
  | none => rfl
  | some last =>
    have cool : refreshCooldown ≤ (g.monotonic : Int) - last := by simpa [hl] using h
    have later : refreshCooldown ≤ (g.monotonic : Int) + t - last := by omega
    simpa [hl] using later

theorem MsnState.Phase.later (h : g.Phase key lock n) (hr : (loneTerms lib url fresh).rely g g') :
    g'.Phase key lock n := by
  obtain ⟨t, rfl⟩ := hr
  exact ⟨h.cached, h.held, h.started, h.unanswered, fun zero => refreshDue_later (h.due zero) t⟩

/-- One step of a lone call, from a phase to a phase. -/
theorem wpt_phase {s : MsnStmt} {next : MsnAnswer s → MsnProgram α} {Q : α → Unit → MsnState → Prop}
    (key' : String) (lock' : Option Nat) (n' : Nat) (here : g.Phase key lock n)
    (can : ∀ g', g'.Phase key lock n → ∃ r g'', rotated lib stale fresh 0 s r () g' = true ∧
      msnExec 0 s r g' = some g'')
    (moves : ∀ g' r g'', g'.Phase key lock n → msnExec 0 s r g' = some g'' → g''.Phase key' lock' n')
    (goes : ∀ g' r g'', g'.Phase key lock n → rotated lib stale fresh 0 s r () g' = true →
      msnExec 0 s r g' = some g'' → g''.Phase key' lock' n' →
      wpt (rotatedSys lib stale fresh) (loneTerms lib url fresh) 0 (next r) Q () g'') :
    wpt (rotatedSys lib stale fresh) (loneTerms lib url fresh) 0 (.stmt s next) Q () g := by
  intro g₁ rely inv
  have here₁ := here.later rely
  constructor
  · obtain ⟨r, g₂, ok, hx⟩ := can g₁ here₁
    exact ⟨r, ((), g₂), by simp [rotatedSys, Sys.restrict, ok, msnSys, hx]⟩
  · intro r _ g₂ hx
    obtain ⟨ok, hx⟩ := rotatedSys_exec hx
    have there := moves g₁ r g₂ here₁ hx
    exact ⟨.inl there.unanswered, goes g₁ r g₂ here₁ ok hx there⟩

theorem msnExec_due {i : Nat} {r : Bool} (due : g.refreshDue = true)
    (h : msnExec i .beginRefresh r g = some g') : r = true ∧
      g' = { g with lastRefresh := some g.monotonic, sniffs := g.sniffs ++ [(i, g.monotonic)] } := by
  have begins : g.beginRefresh i =
      (true, { g with lastRefresh := some g.monotonic, sniffs := g.sniffs ++ [(i, g.monotonic)] }) := by
    unfold MsnState.beginRefresh
    rw [if_pos due]
  change (if r = (g.beginRefresh i).1 then some (g.beginRefresh i).2 else none) = some g' at h
  rw [begins] at h
  by_cases first : r = true
  · rw [if_pos first] at h
    exact ⟨first, (Option.some.inj h).symm⟩
  · rw [if_neg first] at h
    simp at h

/-- A lone refresh sniffs, caches the fresh key and returns it. -/
theorem refreshKey_alone (rotation : Rotation lib stale fresh) (here : g.Phase stale none 0) :
    wpt (rotatedSys lib stale fresh) (loneTerms lib url fresh) 0 refreshKey
      (fun newKey _ g => newKey = some fresh ∧ g.Phase fresh none 1) () g := by
  have acquire : ∀ g' r g'', g'.Phase stale none 0 → msnExec 0 .acquireKeyLock r g' = some g'' →
      g''.Phase stale (some 0) 0 := by
    intro g' r g'' h hx
    simp only [msnExec, h.held] at hx
    cases Option.some.inj hx
    exact ⟨h.cached, rfl, h.started, h.unanswered, h.due⟩
  have begins : ∀ g' r g'', g'.Phase stale (some 0) 0 → msnExec 0 .beginRefresh r g' = some g'' →
      g''.Phase stale (some 0) 1 := by
    intro g' r g'' h hx
    obtain ⟨-, rfl⟩ := msnExec_due (h.due rfl) hx
    exact ⟨h.cached, h.held, by simp [h.started], h.unanswered, by simp⟩
  refine wpt_phase stale (some 0) 0 here ?_ acquire ?_
  · intro g' h
    exact ⟨(), _, rfl, by simp [msnExec, h.held]; rfl⟩
  intro _ _ g₁ _ _ _ here
  refine wpt_phase stale (some 0) 1 here ?_ begins ?_
  · intro g' h
    exact ⟨true, _, rfl, by simp [msnExec, MsnState.beginRefresh, h.due rfl]; rfl⟩
  intro g₂ due g₃ h _ hx here
  obtain ⟨rfl, -⟩ := msnExec_due (h.due rfl) hx
  refine wpt_phase stale (some 0) 1 here ?_ ?_ ?_
  · intro g' h
    obtain ⟨urls, found⟩ := rotation.found
    exact ⟨.ok (some urls), g', by simp [rotated, found], rfl⟩
  · intro g' r g'' h hx
    cases Option.some.inj hx
    exact h
  intro _ seen g₄ _ ok _ here
  cases seen with
  | error e => simp [rotated] at ok
  | ok seen =>
    cases seen with
    | none => simp [rotated] at ok
    | some urls =>
      have found : (urls.filterMap apikey).head? = some fresh := by simpa [rotated] using ok
      have truthy : (some fresh).filter (· ≠ "") = some fresh := by simp [rotation.fresh_ne]
      simp only [Prog.ret_bind, Prog.pure_eq, found, truthy]
      refine wpt_phase fresh (some 0) 1 here ?_ ?_ ?_
      · exact fun g' h => ⟨(), _, rfl, rfl⟩
      · intro g' r g'' h hx
        cases Option.some.inj hx
        exact ⟨rfl, h.held, h.started, h.unanswered, by simp⟩
      intro _ _ g₅ _ _ _ here
      refine wpt_phase fresh none 1 here ?_ ?_ ?_
      · exact fun g' h => ⟨(), _, rfl, rfl⟩
      · intro g' r g'' h hx
        cases Option.some.inj hx
        exact ⟨h.cached, rfl, h.started, h.unanswered, by simp⟩
      intro _ _ g₆ _ _ _ here g₇ rely _
      exact ⟨rfl, here.later rely⟩

theorem SharedSniff.later {urls : List String} (h : SharedSniff lib urls fresh g)
    (hr : (loneTerms lib url fresh).rely g g') : SharedSniff lib urls fresh g' := by
  obtain ⟨t, rfl⟩ := hr
  exact ⟨h.single, h.cached, h.refetched, h.article, h.none⟩

theorem lone_requests (hr : (loneTerms lib url fresh).rely g g') : g'.requests = g.requests := by
  obtain ⟨t, rfl⟩ := hr
  rfl

/-- The result of a lone call is what it shares. -/
theorem finish_alone {resp : Response} {article : Article} (hc : contentId url = some cid)
    (accepted : resp.statusCode = 200) (read : articleOf lib url resp = .ok (some article))
    (here : g.Phase fresh none 1) (asked : (0, cid, fresh) ∈ g.requests) :
    wpt (rotatedSys lib stale fresh) (loneTerms lib url fresh) 0 (msn (.finish (some article)))
      (fun _ _ g => SharedSniff lib [url] fresh g) () g := by
  intro g₁ rely _
  have here₁ := here.later rely
  have asked₁ : (0, cid, fresh) ∈ g₁.requests := by rw [lone_requests rely]; exact asked
  constructor
  · exact ⟨(), _, rfl⟩
  · intro r _ g₂ hx
    obtain ⟨-, hx⟩ := rotatedSys_exec hx
    cases Option.some.inj hx
    have first : ∀ {i : Nat} {url' : String}, [url][i]? = some url' → i = 0 ∧ url' = url := by
      intro i url' hi
      cases i with
      | zero => exact ⟨rfl, (Option.some.inj hi).symm⟩
      | succ i => simp at hi
    have shared : SharedSniff lib [url] fresh { g₁ with results := g₁.results ++ [(0, some article)] } := by
      refine ⟨here₁.started, here₁.cached, ?_, ?_, ?_⟩
      · intro i url' hi
        obtain ⟨rfl, rfl⟩ := first hi
        exact ⟨cid, hc, asked₁⟩
      · intro i url' hi
        obtain ⟨rfl, rfl⟩ := first hi
        exact ⟨resp, article, accepted, read, by simp⟩
      · intro i
        simp [here₁.unanswered]
    exact ⟨.inr shared, fun _ rely _ => shared.later rely⟩

/-- A lone call sniffs once, fetches again with the fresh key and returns the article. -/
theorem extractCall_alone (rotation : Rotation lib stale fresh) (hc : contentId url = some cid)
    (here : g.Phase stale none 0) :
    wpt (rotatedSys lib stale fresh) (loneTerms lib url fresh) 0 (extractCall lib url)
      (fun _ _ g => SharedSniff lib [url] fresh g) () g := by
  unfold extractCall extract
  simp only [hc]
  refine wpt_phase stale none 0 here ?_ ?_ ?_
  · exact fun g' h => ⟨g'.cachedKey, g', by simp [rotated, h.cached], by simp [msnExec]⟩
  · intro g' r g'' h hx
    simp only [msnExec] at hx
    split at hx
    next => cases Option.some.inj hx; exact h
    next => simp at hx
  intro _ cached g₁ _ ok _ here
  obtain rfl : cached = stale := by simpa [rotated] using ok
  refine wpt_phase cached none 0 here ?_ ?_ ?_
  · exact fun g' h => ⟨some ⟨403, ""⟩, _, by simp [rotated, rotation.rotated], rfl⟩
  · intro g' r g'' h hx
    cases Option.some.inj hx
    exact ⟨h.cached, h.held, h.started, h.unanswered, h.due⟩
  intro _ first g₂ _ ok _ here
  cases first with
  | none => simp [rotated] at ok
  | some rejected =>
    have refused : rejected.statusCode ≠ 200 := by simpa [rotated, rotation.rotated] using ok
    have keep : ∀ g g', (loneTerms lib url fresh).inv g → (loneTerms lib url fresh).guar g g' →
        (loneTerms lib url fresh).inv g' := fun _ _ _ h => h
    have inv : (loneTerms lib url fresh).inv g₂ := .inl here.unanswered
    simp only [Prog.bind_eq, Prog.ret_bind, retryRejected, if_neg refused]
    refine wpt_bind inv keep (wpt_bind inv keep (wpt_bind inv keep ?_))
    refine wpt_mono (refreshKey_alone rotation here) ?_
    rintro _ _ g₃ - ⟨rfl, here⟩ _
    have truthy : (some fresh).filter (· ≠ "") = some fresh := by simp [rotation.fresh_ne]
    simp only [truthy]
    refine wpt_phase fresh none 1 here ?_ ?_ ?_
    · intro g' h
      obtain ⟨resp, accepted, read⟩ := rotation.served
      exact ⟨some resp, _, by simp [rotated, accepted, read], rfl⟩
    · intro g' r g'' h hx
      cases Option.some.inj hx
      exact ⟨h.cached, h.held, h.started, h.unanswered, h.due⟩
    intro g₄ resp g₅ _ ok hx here
    have asked : (0, cid, fresh) ∈ g₅.requests := by
      cases Option.some.inj hx
      simp
    cases resp with
    | none => simp [rotated] at ok
    | some resp =>
      obtain ⟨accepted, has⟩ : resp.statusCode = 200 ∧ hasArticle lib resp = true := by
        simpa [rotated] using ok
      obtain ⟨article, read⟩ := articleOf_of_hasArticle has url
      intro g₆ rely₆ _ _
      simp only [if_pos accepted, read]
      intro g₇ rely₇ _ _
      have rely := (loneTerms lib url fresh).rely_trans rely₆ rely₇
      refine finish_alone hc accepted read (here.later rely) ?_
      rw [lone_requests rely]
      exact asked

/-- In a run of one call, what it has returned is right, and it can be run to its end. -/
theorem lone_call (rotation : Rotation lib stale fresh) (hc : contentId url = some cid)
    (idle : g.Idle stale) {w : MsnWorld}
    (run : Steps (rotatedSys lib stale fresh) (concurrentCalls lib [url] g) w) :
    (w.data.results = [] ∨ SharedSniff lib [url] fresh w.data) ∧
      (w.proc 0 ≠ none → ∃ w', Steps (rotatedSys lib stale fresh) w w' ∧ SharedSniff lib [url] fresh w'.data) := by
  have here : g.Phase stale none 0 :=
    ⟨idle.cached, idle.unlocked, by simp [idle.sniffs], idle.results, fun _ => idle.due⟩
  have keep : ∀ g g', (loneTerms lib url fresh).inv g → (loneTerms lib url fresh).guar g g' →
      (loneTerms lib url fresh).inv g' := fun _ _ _ h => h
  have alone := wpt_alone (T := loneTerms lib url fresh) (i := 0)
    (Q := fun _ _ g => SharedSniff lib [url] fresh g) (fun _ _ _ => rfl) ?_ ?_ keep ?_
    (.inl idle.results) ?_ run
  · obtain ⟨inv, -, own⟩ := alone
    refine ⟨inv, fun live => ?_⟩
    obtain ⟨⟨p, l⟩, hp⟩ := Option.ne_none_iff_exists'.mp live
    obtain ⟨w', _, further, -, shared⟩ := wpt_ends keep (own p l hp) inv hp
    exact ⟨w', further, shared⟩
  · intro t g₁ g₂ he
    cases Option.some.inj he
    have moved : (loneTerms lib url fresh).rely g₁ { g₁ with monotonic := g₁.monotonic + t } := ⟨t, rfl⟩
    refine ⟨moved, fun inv => ?_⟩
    rcases inv with unanswered | shared
    · exact .inl unanswered
    · exact .inr (shared.later moved)
  · intro g₁ inv
    simp only [rotatedSys, Sys.restrict, msnSys]
    split
    next =>
      rcases inv with unanswered | shared
      · exact .inl unanswered
      · exact .inr ⟨shared.single, shared.cached, shared.refetched, shared.article, shared.none⟩
    next => exact inv
  · intro j ne
    simp [concurrentCalls, List.getElem?_eq_none (show [url].length ≤ j by simp; omega)]
  · intro p l hp
    obtain ⟨rfl, -⟩ := Prod.mk.inj (Option.some.inj hp)
    exact extractCall_alone rotation hc here

/-- Sniffs never start within the cooldown of one another. Of calls that all see the stale key
rejected, each returns the article of one shared sniff if and only if there is only one call: one
that has waited for the lock is told that the cooldown has not passed. A single call always can
return. -/
theorem key_refresh (lib : ArticleLib) :
    (∀ now w, Reachable (msnSys lib) (msnLoaded now) w →
      w.data.sniffs.Pairwise fun a b => a.2 + refreshCooldown ≤ b.2) ∧
    ∀ stale fresh urls g w, Rotation lib stale fresh → urls ≠ [] →
      (∀ url ∈ urls, contentId url ≠ none) → g.Idle stale →
      Steps (rotatedSys lib stale fresh) (concurrentCalls lib urls g) w →
      (w.data.Returned urls.length → (SharedSniff lib urls fresh w.data ↔ urls.length = 1)) ∧
      (urls.length = 1 → w.proc 0 ≠ none →
        ∃ w', Steps (rotatedSys lib stale fresh) w w' ∧ SharedSniff lib urls fresh w'.data) := by
  constructor
  · intro now w run
    have first : (msnLoaded now).Spaced := ⟨List.Pairwise.nil, by simp [msnLoaded]⟩
    exact (@msnSys_spaced lib _ _ first run).apart
  intro stale fresh urls g w rotation nonempty identified idle run
  have single : urls.length = 1 → ∃ url cid, urls = [url] ∧ contentId url = some cid := by
    intro one
    obtain ⟨url, rfl⟩ := List.length_eq_one_iff.mp one
    obtain ⟨cid, hc⟩ := Option.ne_none_iff_exists'.mp (identified url (by simp))
    exact ⟨url, cid, rfl, hc⟩
  refine ⟨fun returned => ⟨fun shared => ?_, fun one => ?_⟩, fun one live => ?_⟩
  · by_contra several
    have two : 1 < urls.length := by
      have := List.length_pos_iff.mpr nonempty
      omega
    have sniffs : ∀ i (h : i < urls.length), i ∈ w.data.sniffs.map (·.1) := by
      intro i h
      obtain ⟨_, _, _, _, mem⟩ := shared.article i urls[i] (List.getElem?_eq_getElem h)
      exact returned_sniffed rotation.rotated idle.results run mem
    obtain ⟨sniff, only⟩ := List.length_eq_one_iff.mp shared.single
    have zero := sniffs 0 (by omega)
    have other := sniffs 1 two
    simp only [only, List.map_cons, List.map_nil, List.mem_singleton] at zero other
    omega
  · obtain ⟨url, cid, rfl, hc⟩ := single one
    rcases (lone_call rotation hc idle run).1 with unanswered | shared
    · have answered := returned 0 (by simp)
      simp [unanswered] at answered
    · exact shared
  · obtain ⟨url, cid, rfl, hc⟩ := single one
    exact (lone_call rotation hc idle run).2 live

/-- A content API and a browser that answer with the key of a page. -/
def sampleArticles : ArticleLib where
  loads content :=
    if content = "detail" then some (.obj [("body", .str "<p>text</p>")])
    else if content = "document" then some (.obj [("text", .str "text")])
    else none
  extract _ := .ok (some "document")

def sampleMsnUrl : String := "https://www.msn.com/ar-AA24wgWc"

def sampleKey : String := "FRESHKEYFRESHKEYFRESH"

def samplePage : String := "https://assets.msn.com/c?apikey=FRESHKEYFRESHKEYFRESH"

def sampleMsnAnswer (_ : Unit) (g : MsnState) : (s : MsnStmt) → Option (MsnAnswer s)
  | .cachedKey => some g.cachedKey
  | .httpGet _ key => some (some (if key = sampleKey then ⟨200, "detail"⟩ else ⟨403, ""⟩))
  | .beginRefresh => some g.refreshDue
  | .sniff => some (.ok (some [samplePage]))
  | .acquireKeyLock => some ()
  | .releaseKeyLock => some ()
  | .cacheKey _ => some ()
  | .finish _ => some ()

def sampleCalls (urls : List String) (turns : List Nat) : Option MsnWorld :=
  (rotatedSys sampleArticles keySeed sampleKey).run (concurrentCalls sampleArticles urls (msnLoaded 0))
    (turns.map fun i => .exec i sampleMsnAnswer)

theorem sampleRotation : Rotation sampleArticles keySeed sampleKey where
  rotated := by decide
  found := ⟨[samplePage], by decide +kernel⟩
  served := ⟨⟨200, "detail"⟩, rfl, by decide +kernel⟩

theorem msnLoaded_idle (now : Time) : (msnLoaded now).Idle keySeed := ⟨rfl, rfl, rfl, rfl, rfl⟩

theorem key_refresh_sample : ∃ w : MsnWorld,
    Steps (rotatedSys sampleArticles keySeed sampleKey)
      (concurrentCalls sampleArticles [sampleMsnUrl] (msnLoaded 0)) w ∧
    w.data.Returned 1 ∧ SharedSniff sampleArticles [sampleMsnUrl] sampleKey w.data := by
  have ends : (sampleCalls [sampleMsnUrl] [0, 0, 0, 0, 0, 0, 0, 0, 0]).map
      (fun w => decide (w.data.results.map (·.1) = [0])) = some true := by decide +kernel
  obtain ⟨w, run, answered⟩ := Sys.run_reaches ends
  have returned : w.data.Returned 1 := by
    intro i hi
    obtain rfl : i = 0 := by omega
    simp [of_decide_eq_true answered]
  have identified : ∀ url ∈ [sampleMsnUrl], contentId url ≠ none := by
    intro url hu
    rw [List.mem_singleton.mp hu]
    decide +kernel
  have settled := (key_refresh sampleArticles).2 _ _ _ _ _ sampleRotation (by simp) identified
    (msnLoaded_idle 0) run
  exact ⟨w, run, returned, (settled.1 returned).mpr rfl⟩

/-- Two calls: the second waits for the first's sniff, takes the cooldown's branch and falls through. -/
theorem key_refresh_waiter : Rotation sampleArticles keySeed sampleKey ∧ (msnLoaded 0).Idle keySeed ∧
    ∃ w : MsnWorld,
      Steps (rotatedSys sampleArticles keySeed sampleKey)
        (concurrentCalls sampleArticles [sampleMsnUrl, sampleMsnUrl] (msnLoaded 0)) w ∧
      w.data.Returned 2 ∧ w.data.sniffs.length = 1 ∧ w.data.cachedKey = sampleKey ∧
      (1, none) ∈ w.data.results ∧
      ¬ SharedSniff sampleArticles [sampleMsnUrl, sampleMsnUrl] sampleKey w.data := by
  have ends : (sampleCalls [sampleMsnUrl, sampleMsnUrl] [0, 0, 1, 1, 0, 0, 0, 0, 0, 0, 0, 1, 1, 1, 1]).map
      (fun w => decide (w.data.results.map (·.1) = [0, 1] ∧ w.data.sniffs.length = 1 ∧
        w.data.cachedKey = sampleKey ∧ (1, none) ∈ w.data.results)) = some true := by decide +kernel
  obtain ⟨w, run, answered⟩ := Sys.run_reaches ends
  obtain ⟨both, single, cached, missed⟩ := of_decide_eq_true answered
  refine ⟨sampleRotation, msnLoaded_idle 0, w, run, ?_, single, cached, missed, ?_⟩
  · intro i hi
    rw [both]
    simp only [List.mem_cons, List.not_mem_nil, or_false]
    omega
  · exact fun shared => shared.none 1 missed

end NewsNotifier
