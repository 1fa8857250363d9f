import NewsNotifier.MsnExtractor

namespace NewsNotifier

open Interleaving

theorem cooled {a last now : Int} (le : a ≤ last) (cool : refreshCooldown ≤ now - last) :
    a + refreshCooldown ≤ now := by omega

theorem before_cooled {a now : Int} (h : a + refreshCooldown ≤ now) : a ≤ now := by
  have positive : 0 < refreshCooldown := by decide
  omega

/-- Two sniffs start no less than the cooldown apart, and the last refresh is none before any. -/
structure MsnState.Spaced (g : MsnState) : Prop where
  apart : g.sniffs.Pairwise fun a b => a.2 + refreshCooldown ≤ b.2
  stamped : ∀ s ∈ g.sniffs, ∃ last, g.lastRefresh = some last ∧ s.2 ≤ last

theorem MsnState.Spaced.beginRefresh {g : MsnState} (h : g.Spaced) (i : Nat) :
    (g.beginRefresh i).2.Spaced := by
  unfold MsnState.beginRefresh
  split
  next due =>
    have past : ∀ s ∈ g.sniffs, s.2 + refreshCooldown ≤ g.monotonic := by
      intro s hs
      obtain ⟨last, stamp, le⟩ := h.stamped s hs
      exact cooled le (by simpa [MsnState.refreshDue, stamp] using due)
    constructor
    · refine List.pairwise_append.mpr ⟨h.apart, List.pairwise_singleton _ _, ?_⟩
      intro a ha b hb
      obtain rfl := List.mem_singleton.mp hb
      exact past a ha
    · intro s hs
      refine ⟨g.monotonic, rfl, ?_⟩
      rcases List.mem_append.mp hs with old | new
      · exact before_cooled (past s old)
      · obtain rfl := List.mem_singleton.mp new
        exact Int.le_refl g.monotonic
  next => exact h

/-- One step. -/
theorem msnExec_spaced {i : Nat} {s : MsnStmt} {r : MsnAnswer s} {g g' : MsnState} (h : g.Spaced)
    (hx : msnExec i s r g = some g') : g'.Spaced := by
  unfold msnExec at hx
  split at hx
  case h_5 =>
    split at hx
    next => cases Option.some.inj hx; exact h.beginRefresh i
    next => simp at hx
  all_goals try split at hx
  all_goals first
    | (cases Option.some.inj hx; exact ⟨h.apart, h.stamped⟩)
    | simp at hx

/-- Every run. -/
theorem msnSys_spaced {lib : ArticleLib} {w w' : MsnWorld} (h : w.data.Spaced)
    (run : Steps (msnSys lib) w w') : w'.data.Spaced := by
  induction run with
  | refl => exact h
  | tail _ step ih =>
    cases step with
    | exec r hp hx =>
      obtain ⟨g', hg, eq⟩ := Option.map_eq_some_iff.mp hx
      obtain ⟨-, rfl⟩ := Prod.mk.inj eq
      exact msnExec_spaced ih hg
    | start hp hs =>
      obtain ⟨-, rfl⟩ := Prod.mk.inj (Option.some.inj hs)
      exact ih
    | stop hp =>
      simp only [World.set_data, msnSys]
      split
      next => exact ⟨ih.apart, ih.stamped⟩
      next => exact ih
    | env he =>
      cases Option.some.inj he
      exact ⟨ih.apart, ih.stamped⟩

def hasArticle (lib : ArticleLib) (resp : Response) : Bool :=
  match articleOf lib "" resp with
  | .ok (some _) => true
  | _ => false

/-- Whether a response holds an article does not depend on the url it is for. -/
theorem articleOf_of_hasArticle {lib : ArticleLib} {resp : Response} (h : hasArticle lib resp = true)
    (url : String) : ∃ article, articleOf lib url resp = .ok (some article) := by
  unfold hasArticle articleOf at h
  unfold articleOf
  cases loaded : lib.loads resp.content with
  | none => simp [loaded] at h
  | some json =>
    cases json with
    | obj data =>
      simp only [loaded] at h ⊢
      cases body : (Json.field data "body").filter Json.truthy with
      | none => simp [body] at h
      | some bodyHtml =>
        simp only [body] at h ⊢
        cases extracted : lib.extract bodyHtml with
        | error e => simp [extracted, bind, Except.bind] at h
        | ok extracted' =>
          cases doc : documentOf lib extracted' with
          | error e => simp [extracted, doc, bind, Except.bind] at h
          | ok fields =>
            cases text : (Json.field fields "text").filter Json.truthy with
            | none => simp [extracted, doc, text, bind, Except.bind, pure, Except.pure] at h
            | some text' => simp [doc, text, bind, Except.bind, pure, Except.pure]
    | _ => simp [loaded] at h

/-- A rotation of the key: the cached key is read stale, the content API answers 200, with an
article, exactly for the fresh key, and a sniff finds that key. -/
def rotated (lib : ArticleLib) (stale fresh : String) :
    Nat → (s : MsnStmt) → MsnAnswer s → Unit → MsnState → Bool
  | _, .cachedKey, r, _, _ => r = stale
  | _, .httpGet _ key, r, _, _ =>
    match r with
    | none => false
    | some resp =>
      if key = fresh then resp.statusCode = 200 && hasArticle lib resp else resp.statusCode ≠ 200
  | _, .sniff, r, _, _ =>
    match r with
    | .ok (some urls) => (urls.filterMap apikey).head? = some fresh
    | _ => false
  | _, _, _, _, _ => true

/-- The calls that run, and no other, during a rotation. -/
def rotatedSys (lib : ArticleLib) (stale fresh : String) :
    Sys Nat MsnStmt MsnAnswer Raised Unit MsnState String Nat :=
  { (msnSys lib).restrict (rotated lib stale fresh) with start := fun _ _ _ => none }

def concurrentCalls (lib : ArticleLib) (urls : List String) (g : MsnState) : MsnWorld :=
  ⟨g, fun i => urls[i]?.map fun url => (extractCall lib url, ())⟩

/-- Nothing refreshes the stale key, nor has within the cooldown. -/
structure MsnState.Idle (g : MsnState) (stale : String) : Prop where
  cached : g.cachedKey = stale
  unlocked : g.keyLock = none
  due : g.refreshDue = true
  sniffs : g.sniffs = []
  results : g.results = []

/-- Every call has returned. -/
def MsnState.Returned (g : MsnState) (n : Nat) : Prop := ∀ i < n, i ∈ g.results.map (·.1)

/-- One sniff is shared: the cache holds its key, and every call fetches with it and returns its
article. -/
structure SharedSniff (lib : ArticleLib) (urls : List String) (fresh : String) (g : MsnState) : Prop where
  single : g.sniffs.length = 1
  cached : g.cachedKey = fresh
  refetched : ∀ i url, urls[i]? = some url → ∃ cid, contentId url = some cid ∧ (i, cid, fresh) ∈ g.requests
  article : ∀ i url, urls[i]? = some url → ∃ resp article, resp.statusCode = 200 ∧
    articleOf lib url resp = .ok (some article) ∧ (i, some article) ∈ g.results
  none : ∀ i, (i, none) ∉ g.results

variable {lib : ArticleLib} {stale fresh : String} {i : Nat} {α : Type}

theorem rotatedSys_exec {s : MsnStmt} {r : MsnAnswer s} {l l' : Unit} {g g' : MsnState}
    (h : (rotatedSys lib stale fresh).exec i s r l g = some (l', g')) :
    rotated lib stale fresh i s r () g = true ∧ msnExec i s r g = some g' := by
  obtain ⟨ok, hx⟩ := @Sys.exec_of_restrict _ _ _ _ _ _ _ _ (msnSys lib) (rotated lib stale fresh) _ _ _ _ _ _ _ h
  obtain ⟨g'', hg, eq⟩ := Option.map_eq_some_iff.mp hx
  obtain ⟨-, rfl⟩ := Prod.mk.inj eq
  exact ⟨ok, hg⟩

/-- A call that returns an article has sniffed itself. -/
def sniffers : Contract Nat Raised MsnState where
  inv g := ∀ i article, (i, some article) ∈ g.results → i ∈ g.sniffs.map (·.1)
  act _ g g' := g.sniffs <+: g'.sniffs ∧
    ∀ i article, (i, some article) ∈ g'.results → i ∈ g'.sniffs.map (·.1)
  fault _ := True

theorem beginRefresh_adds (g : MsnState) (i : Nat) :
    g.sniffs <+: (g.beginRefresh i).2.sniffs ∧ (g.beginRefresh i).2.results = g.results := by
  unfold MsnState.beginRefresh
  split
  next => exact ⟨List.prefix_append _ _, rfl⟩
  next => exact ⟨List.prefix_rfl, rfl⟩

/-- A statement other than the return of a result only adds sniffs. -/
theorem msnExec_adds {s : MsnStmt} {r : MsnAnswer s} {g g' : MsnState} (h : msnExec i s r g = some g')
    (hs : ∀ result, s ≠ .finish result) : g.sniffs <+: g'.sniffs ∧ g'.results = g.results := by
  unfold msnExec at h
  split at h
  case h_8 result _ => exact absurd rfl (hs result)
  all_goals try split at h
  all_goals first
    | (cases Option.some.inj h; exact ⟨List.prefix_rfl, rfl⟩)
    | (cases Option.some.inj h; exact beginRefresh_adds g i)
    | simp at h

theorem wp_msn {s : MsnStmt} {next : MsnAnswer s → MsnProgram α} {Q : α → Unit → MsnState → Prop}
    {g : MsnState} (hs : ∀ result, s ≠ .finish result)
    (h : ∀ g' r g'', rotated lib stale fresh i s r () g' = true → msnExec i s r g' = some g'' →
      wp (rotatedSys lib stale fresh) (sniffers.terms i) i (next r) Q (fun _ => True) () g'') :
    wp (rotatedSys lib stale fresh) (sniffers.terms i) i (.stmt s next) Q (fun _ => True) () g := by
  intro g' _ inv r l' g'' hx
  obtain ⟨ok, hx⟩ := rotatedSys_exec hx
  obtain ⟨adds, same⟩ := msnExec_adds hx hs
  refine ⟨⟨adds, fun j article hr => ?_⟩, h g' r g'' ok hx⟩
  rw [same] at hr
  exact (adds.map _).subset (inv j article hr)

theorem sniffers_kept (g g' : MsnState) (_ : sniffers.inv g) (h : (sniffers.terms i).guar g g')
    (hk : i ∈ g.sniffs.map (·.1)) : i ∈ g'.sniffs.map (·.1) :=
  (h.1.map _).subset hk

theorem sniffers_stable (g g' : MsnState) (h : (sniffers.terms i).rely g g')
    (_ : (sniffers.terms i).inv g') (hk : i ∈ g.sniffs.map (·.1)) : i ∈ g'.sniffs.map (·.1) := by
  have grown : g.sniffs <+: g'.sniffs := by
    refine Contract.rely_ind (R := fun a b => a.sniffs <+: b.sniffs) List.prefix_rfl ?_ ?_ h
    · exact fun ab bc => ab.trans bc
    · rintro a b ⟨_, _, _, _, act⟩
      exact act.1
  exact (grown.map _).subset hk

/-- The statements that return no result of a call. -/
def Unfinished (s : MsnStmt) : Prop := ∀ result, s ≠ .finish result

theorem wp_unfinished {p : MsnProgram α} (hp : p.Each Unfinished fun _ => True) (g : MsnState) :
    wp (rotatedSys lib stale fresh) (sniffers.terms i) i p (fun _ _ _ => True) (fun _ => True) () g := by
  induction p generalizing g with
  | ret a => exact fun _ _ _ => True.intro
  | raise e => exact fun _ _ _ => True.intro
  | stmt s next ih => exact wp_msn hp.1 fun _ r g' _ _ => ih r (hp.2 r) g'

/-- A process that has sniffed has still done so at its end. -/
theorem wp_sniffed {p : MsnProgram α} (hp : p.Each Unfinished fun _ => True) {g : MsnState}
    (sniffed : i ∈ g.sniffs.map (·.1)) :
    wp (rotatedSys lib stale fresh) (sniffers.terms i) i p (fun _ _ g => i ∈ g.sniffs.map (·.1))
      (fun _ => True) () g := by
  have runs : wp (rotatedSys lib stale fresh) (sniffers.terms i) i p (fun _ _ _ => True)
      (fun _ => True) () g := wp_unfinished hp g
  have kept := wp_keep sniffers_stable sniffers_kept runs sniffed
  exact wp_mono kept (fun _ _ _ _ h => h.2) fun _ h => h

theorem within_unfinished {p : MsnProgram α} (hp : p.Each Unfinished fun _ => True) :
    (Prog.within (msn .releaseKeyLock) p).Each Unfinished fun _ => True := by
  induction p with
  | ret a => exact ⟨by simp [Unfinished], fun _ => True.intro⟩
  | raise e => exact ⟨by simp [Unfinished], fun _ => True.intro⟩
  | stmt s next ih => exact ⟨hp.1, fun r => ih r (hp.2 r)⟩

theorem sniffKeyViaBrowser_unfinished : sniffKeyViaBrowser.Each Unfinished fun _ => True := by
  refine ⟨by simp [Unfinished], fun seen => ?_⟩
  cases seen with
  | error e => exact True.intro
  | ok urls =>
    cases urls with
    | none => exact True.intro
    | some urls => exact True.intro

theorem beginRefresh_sniffs {g g' : MsnState} (h : msnExec i .beginRefresh true g = some g') :
    i ∈ g'.sniffs.map (·.1) := by
  simp only [msnExec] at h
  split at h
  next first =>
    cases Option.some.inj h
    unfold MsnState.beginRefresh at first ⊢
    split at first
    next due => simp [due]
    next => simp at first
  next => simp at h

/-- A refresh that returns a key has sniffed. -/
theorem refreshKey_sniffs (g : MsnState) :
    wp (rotatedSys lib stale fresh) (sniffers.terms i) i refreshKey
      (fun newKey _ g => newKey ≠ none → i ∈ g.sniffs.map (·.1)) (fun _ => True) () g := by
  refine wp_msn (by simp) fun _ _ g₁ _ _ => ?_
  refine wp_msn (by simp) fun g₂ due g₃ _ hx => ?_
  cases due with
  | false =>
    refine wp_msn (by simp) fun _ _ g₄ _ _ => ?_
    intro _ _ _ ne
    exact absurd rfl ne
  | true =>
    refine wp_mono (wp_sniffed (within_unfinished ?_) (beginRefresh_sniffs hx)) ?_ fun _ h => h
    · refine sniffKeyViaBrowser_unfinished.bind fun newKey => ?_
      cases newKey.filter (· ≠ "") with
      | none => exact True.intro
      | some key => exact ⟨by simp [Unfinished], fun _ => True.intro⟩
    · exact fun _ _ _ _ sniffed _ => sniffed

/-- A call that has returned an article, after a first request with the stale key, has sniffed. -/
theorem extract_sniffs (rotation : stale ≠ fresh) (url : String) (g : MsnState) :
    wp (rotatedSys lib stale fresh) (sniffers.terms i) i (extract lib url)
      (fun result _ g => result ≠ none → i ∈ g.sniffs.map (·.1)) (fun _ => True) () g := by
  unfold extract
  cases contentId url with
  | none =>
    intro _ _ _ ne
    exact absurd rfl ne
  | some cid =>
    refine wp_msn (by simp) fun _ cached g₁ ok _ => ?_
    obtain rfl : cached = stale := by simpa [rotated] using ok
    refine wp_msn (by simp) fun _ first g₂ ok _ => ?_
    cases first with
    | none => simp [rotated] at ok
    | some rejected =>
      have refused : rejected.statusCode ≠ 200 := by simpa [rotated, rotation] using ok
      simp only [Prog.bind_eq, Prog.ret_bind, retryRejected, if_neg refused]
      refine wp_bind (wp_bind (wp_mono (refreshKey_sniffs g₂) ?_ fun _ h => h))
      intro newKey _ g₃ _ sniffed inv
      cases hk : newKey.filter (· ≠ "") with
      | none =>
        intro _ _ _ _
        simp only [if_neg refused]
        intro _ _ _ ne
        exact absurd rfl ne
      | some key =>
        have some_key : newKey ≠ none := by
          intro none
          simp [none] at hk
        refine wp_mono (wp_sniffed ?_ (sniffed some_key)) ?_ fun _ h => h
        · exact ⟨by simp [Unfinished], fun _ => True.intro⟩
        · intro resp _ g₄ _ sniffed _
          refine wp_mono (wp_sniffed ?_ sniffed) (fun _ _ _ _ h _ => h) fun _ h => h
          cases resp with
          | none => exact True.intro
          | some resp =>
            by_cases accepted : resp.statusCode = 200
            · simp only [if_pos accepted]
              cases articleOf lib url resp with
              | error e => exact True.intro
              | ok article => exact True.intro
            · simp only [if_neg accepted]
              exact True.intro

theorem extractCall_sniffs (rotation : stale ≠ fresh) (url : String) (g : MsnState) :
    wp (rotatedSys lib stale fresh) (sniffers.terms i) i (extractCall lib url) (fun _ _ _ => True)
      (fun _ => True) () g := by
  refine wp_bind (wp_mono (extract_sniffs rotation url g) ?_ fun _ h => h)
  intro result _ g₁ _ sniffed _ g₂ rely inv r _ g₃ hx
  obtain ⟨-, hx⟩ := rotatedSys_exec hx
  cases Option.some.inj hx
  refine ⟨⟨List.prefix_rfl, fun j article hr => ?_⟩, fun _ _ _ => True.intro⟩
  rcases List.mem_append.mp hr with old | new
  · exact inv j article old
  · obtain ⟨rfl, rfl⟩ := Prod.mk.inj (List.mem_singleton.mp new)
    exact sniffers_stable g₁ g₂ rely inv (sniffed (by simp))

theorem sniffers_governs : sniffers.Governs (rotatedSys lib stale fresh) where
  keep _ h := h.2
  start h := by simp [rotatedSys] at h
  stop {i g} inv := by
    simp only [rotatedSys, Sys.restrict, msnSys]
    split
    next => exact ⟨List.prefix_rfl, inv⟩
    next => exact ⟨List.prefix_rfl, inv⟩
  env he inv := by
    cases Option.some.inj he
    exact ⟨List.prefix_rfl, inv⟩

/-- In every run of the calls, one that has returned an article has sniffed itself. -/
theorem returned_sniffed (rotation : stale ≠ fresh) {urls : List String} {g : MsnState}
    (idle : g.results = []) {w : MsnWorld}
    (run : Steps (rotatedSys lib stale fresh) (concurrentCalls lib urls g) w) {article : Article}
    (h : (i, some article) ∈ w.data.results) : i ∈ w.data.sniffs.map (·.1) := by
  have first : sniffers.Sound (rotatedSys lib stale fresh) (concurrentCalls lib urls g) := by
    refine ⟨fun j article hr => by simp [concurrentCalls, idle] at hr, ?_⟩
    intro j p l hp
    obtain ⟨url, -, eq⟩ := Option.map_eq_some_iff.mp hp
    obtain ⟨rfl, rfl⟩ := Prod.mk.inj eq
    exact extractCall_sniffs rotation url g
  have sound := (sniffers_governs.steps_ind (R := fun _ _ => True) True.intro (fun _ _ => True.intro)
    (fun _ _ => True.intro) first run).1
  exact sound.data i article h

end NewsNotifier
