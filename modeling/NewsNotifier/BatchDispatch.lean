import NewsNotifier.AnswerTraces
import NewsNotifier.TaskStatements

namespace NewsNotifier

open Interleaving

abbrev NewsSaid := Said Answer

/-- Who owns a slot of a batch: an accepted job, or the resolution of the candidate at once. -/
def owner : NewsSaid → Option (Uuid × String)
  | ⟨.enqueueJob _ (.processCandidate _ c (some b)) _, true⟩ => some (b, c.canonicalUrlHash)
  | ⟨.insertCandidate row, _⟩ => some (row.batchId, row.canonicalUrlHash)
  | _ => none

/-- The statements that neither open a batch nor fill a slot. -/
def Stmt.slotless : Stmt → Prop
  | .insertBatch _ _ _ | .insertCandidate _ | .assign (.insertCandidate _)
  | .enqueueJob _ (.processCandidate _ _ _) _ => False
  | _ => True

/-- The slots that the fan-out of batch `b` offers, to jobs of their own or as collisions. -/
def Stmt.dispatches (m b : Uuid) (selected : List Candidate) : Stmt → Prop
  | .enqueueJob id (.processCandidate m' c b') t =>
    c ∈ selected ∧ (id, m', b', t) = (.processCandidate m c.canonicalUrlHash, m, some b, none)
  | .insertCandidate row => ∃ c ∈ selected, row = ⟨b, c.canonicalUrlHash, "collided_prior_cycle", none⟩
  | .assign (.insertCandidate _) => False
  | _ => True

theorem Stmt.slotless.dispatches {s : Stmt} (h : s.slotless) {m b : Uuid} {selected : List Candidate} :
    s.dispatches m b selected := by
  unfold Stmt.dispatches
  split
  next => exact h.elim
  next => exact h.elim
  next => exact h.elim
  next => exact True.intro

theorem owner_slotless {x : NewsSaid} (h : x.1.slotless) : owner x = none := by
  unfold owner
  split
  next => exact h.elim
  next => exact h.elim
  next => rfl

theorem owners_slotless {more : List NewsSaid} (h : ∀ x ∈ more, x.1.slotless) : more.filterMap owner = [] := by
  rw [List.filterMap_eq_nil_iff]
  exact fun x hx => owner_slotless (h x hx)

theorem Stmt.batching.slotless {m : Uuid} {s : Stmt} (h : s.batching m) : s.slotless := by
  unfold Stmt.batching at h
  split at h <;> first | exact True.intro | exact h.elim

/-- The slots that a program fills. -/
structure Fills (m b : Uuid) (selected : List Candidate) (slots : List (Uuid × String)) (before after : List NewsSaid) :
    Prop where
  grows : ∃ more, after = before ++ more ∧ more.filterMap owner = slots ∧
    ∀ x ∈ more, x.1.dispatches m b selected

variable {m b : Uuid} {selected : List Candidate} {slots slots' : List (Uuid × String)} {h h' h'' : List NewsSaid}

theorem Fills.trans (first : Fills m b selected slots h h') (last : Fills m b selected slots' h' h'') :
    Fills m b selected (slots ++ slots') h h'' := by
  obtain ⟨more, rfl, own, asked⟩ := first
  obtain ⟨more', rfl, own', asked'⟩ := last
  refine ⟨more ++ more', List.append_assoc .., ?_, fun x hx => ?_⟩
  · rw [List.filterMap_append, own, own']
  · rcases List.mem_append.mp hx with hx | hx
    · exact asked x hx
    · exact asked' x hx

theorem Fills.said {x : NewsSaid} (asked : x.1.dispatches m b selected) :
    Fills m b selected (owner x).toList h (h ++ [x]) := by
  refine ⟨[x], rfl, ?_, by simpa using asked⟩
  cases e : owner x <;> simp [e]

theorem Fills.quiet (h : List NewsSaid) {more : List NewsSaid} (none : ∀ x ∈ more, x.1.slotless) :
    Fills m b selected [] h (h ++ more) :=
  ⟨more, rfl, owners_slotless none, fun x hx => (none x hx).dispatches⟩

section Programs

variable {R : (s : Stmt) → Answer s → Prop} {α : Type}

theorem fills_slotless (m b : Uuid) (selected : List Candidate) {p : Program α}
    (each : p.Each Stmt.slotless fun _ => True) (h : List NewsSaid) :
    p.Tells R (fun h' _ => Fills m b selected [] h h') h := by
  refine (each.tells (Prog.Yields.trivial p) h).mono (fun h' _ => ?_) fun _ _ h => h
  rintro ⟨_, more, rfl, none⟩
  exact .quiet h none

/-- A resolution fills its one slot, whether or not the row goes in. -/
theorem resolveBatchCandidate_fills {c : Candidate} (mem : c ∈ selected) (h : List NewsSaid) :
    (resolveBatchCandidate m b c.canonicalUrlHash "collided_prior_cycle" none).Tells R
      (fun h' _ => Fills m b selected [(b, c.canonicalUrlHash)] h h') h := by
  refine ⟨True.intro, fun _ _ => ⟨True.intro, fun inserted _ => ?_⟩⟩
  have here : ∀ {h' : List NewsSaid}, Fills m b selected [] (h ++ [⟨.advisoryXactLock (marketLockKey m), ()⟩] ++
      [⟨.insertCandidate ⟨b, c.canonicalUrlHash, "collided_prior_cycle", none⟩, inserted⟩]) h' →
      Fills m b selected [(b, c.canonicalUrlHash)] h h' := by
    intro h' rest
    have lock : Fills m b selected [] h (h ++ [⟨.advisoryXactLock (marketLockKey m), ()⟩]) :=
      .said (x := ⟨.advisoryXactLock (marketLockKey m), ()⟩) True.intro
    exact (lock.trans (.said (x := ⟨.insertCandidate _, inserted⟩) ⟨c, mem, rfl⟩)).trans rest
  refine (fills_slotless m b selected ?_ _).mono (fun _ _ => here) fun _ _ h => h
  simp only [Prog.ret_bind]
  split
  next => exact ⟨True.intro, fun _ => True.intro⟩
  next =>
    refine ⟨True.intro, fun row => ?_⟩
    simp only [Prog.ret_bind]
    split
    next => exact ⟨True.intro, fun _ => True.intro⟩
    next => exact ⟨True.intro, fun _ => True.intro⟩
    next => exact (finalizeBatchDelivery_does (fun _ h => h.slotless) b).bind fun _ => ⟨True.intro, fun _ => True.intro⟩

/-- The fan-out of a candidate fills its slot once: by its job if arq accepts it, else by a collision. -/
theorem dispatchCandidate_fills {c : Candidate} (mem : c ∈ selected) (h : List NewsSaid) :
    (dispatchCandidate m (some b) c).Tells R
      (fun h' _ => Fills m b selected [(b, c.canonicalUrlHash)] h h') h := by
  refine ⟨True.intro, fun accepted _ => ?_⟩
  have job : Fills m b selected (if accepted then [(b, c.canonicalUrlHash)] else []) h
      (h ++ [⟨.enqueueJob (.processCandidate m c.canonicalUrlHash) (.processCandidate m c (some b)) none, accepted⟩]) := by
    have asked : Fills m b selected _ h (h ++ [_]) := .said (x := ⟨.enqueueJob
      (.processCandidate m c.canonicalUrlHash) (.processCandidate m c (some b)) none, accepted⟩) ⟨mem, rfl⟩
    cases accepted <;> exact asked
  have registers : (registerMarketJob m (.processCandidate m c.canonicalUrlHash)).Each Stmt.slotless fun _ => True :=
    registerMarketJob_does (fun _ => True.intro) True.intro _
  simp only [Prog.ret_bind, Prog.bind_eq]
  refine Prog.Obeys.bind ((fills_slotless m b selected registers _).mono (fun h₁ _ registered => ?_) fun _ _ h => h)
  have first := job.trans registered
  cases accepted with
  | true => exact first
  | false =>
    simp only [Bool.false_eq_true, if_false] at first ⊢
    refine Prog.Obeys.bind ((resolveBatchCandidate_fills mem h₁).mono (fun h₂ logId resolved => ?_) fun _ _ h => h)
    exact (fills_slotless m b selected (enqueueDelivery_does (fun _ => True.intro) logId) h₂).mono
      (fun _ _ last => (first.trans resolved).trans last) fun _ _ h => h

theorem dispatchCycle_fills (next : Time) (h : List NewsSaid) : (dispatchCycle m next (some b) selected).Tells R
    (fun h' _ => Fills m b selected (selected.map fun c => (b, c.canonicalUrlHash)) h h') h := by
  refine ⟨True.intro, fun accepted _ => ?_⟩
  let K : List Candidate → List NewsSaid → Prop := fun rest h' => ∃ done, done ++ rest = selected ∧
    Fills m b selected (done.map fun c => (b, c.canonicalUrlHash)) h h'
  have start : K selected (h ++ [⟨.enqueueJob (.processMarket m next) (.processMarket m) (some next), accepted⟩]) :=
    ⟨[], rfl, .said (x := ⟨.enqueueJob _ (.processMarket m) _, accepted⟩) True.intro⟩
  refine (Prog.Obeys.forEach (K := K) ?_ selected start).mono (fun h' _ => ?_) fun _ _ h => h
  · rintro c rest h₁ ⟨done, split, filled⟩
    have mem : c ∈ selected := by
      rw [← split]
      exact List.mem_append_right _ List.mem_cons_self
    refine (dispatchCandidate_fills mem h₁).mono (fun h₂ _ one => ⟨done ++ [c], ?_, ?_⟩) fun _ _ h => h
    · rw [List.append_assoc, List.singleton_append, split]
    · rw [List.map_append]
      exact filled.trans one
  · rintro ⟨done, split, filled⟩
    rw [List.append_nil] at split
    exact split ▸ filled

end Programs

/-- The selected candidates come out of one merged search, under hashes of their own. -/
structure Selected (lib : PyLib) (selected : List Candidate) (h : List NewsSaid) : Prop where
  distinct : UniqueHashes selected
  merged : ∃ queries n results candidates, ⟨.searchSources queries n, results⟩ ∈ h ∧
    mergeResults lib results = .ok candidates ∧ selected ⊆ candidates

/-- A cycle of market `m` that opened batch `b` for what it selected. -/
structure Dispatched (lib : PyLib) (m b : Uuid) (selected : List Candidate) (h : List NewsSaid) : Prop where
  selection : Selected lib selected h
  opened : ∃ watermark new before after, new.id = b ∧ h = before ++
    ⟨.insertBatch m selected.length watermark, new⟩ :: ⟨.commit, ()⟩ :: after
  owners : h.filterMap owner = selected.map fun c => (b, c.canonicalUrlHash)
  asked : ∀ x ∈ h, x.1.dispatches m b selected

/-- A map that repeats nothing tells the members of the list apart. -/
theorem eq_of_filterMap_nodup {α β : Type} {f : α → Option β} {l : List α} (h : (l.filterMap f).Nodup)
    {x y : α} (hx : x ∈ l) (hy : y ∈ l) {k : β} (fx : f x = some k) (fy : f y = some k) : x = y := by
  induction l with
  | nil => simp at hx
  | cons a l ih =>
    have apart : ∀ z ∈ l, f z = some k → f a ≠ some k := by
      intro z hz fz fa
      rw [List.filterMap_cons_some fa] at h
      exact (List.nodup_cons.mp h).1 (List.mem_filterMap.mpr ⟨z, hz, fz⟩)
    have rest : (l.filterMap f).Nodup := by
      cases fa : f a with
      | none => rwa [List.filterMap_cons_none fa] at h
      | some b =>
        rw [List.filterMap_cons_some fa] at h
        exact (List.nodup_cons.mp h).2
    rcases List.mem_cons.mp hx with rfl | hx' <;> rcases List.mem_cons.mp hy with rfl | hy'
    · rfl
    · exact absurd fx (apart y hy' fy)
    · exact absurd fy (apart x hx' fx)
    · exact ih rest hx' hy'

section Owned

variable {lib : PyLib} {m b : Uuid} {selected : List Candidate} {h : List NewsSaid} {c : Candidate}

/-- The job of a slot was accepted, under this batch. -/
def AcceptedJob (m b : Uuid) (c : Candidate) (h : List NewsSaid) : Prop :=
  ⟨.enqueueJob (.processCandidate m c.canonicalUrlHash) (.processCandidate m c (some b)) none, true⟩ ∈ h

/-- The slot was resolved at once, as a collision with an earlier cycle. -/
def Collided (b : Uuid) (c : Candidate) (h : List NewsSaid) : Prop :=
  ∃ r, ⟨.insertCandidate ⟨b, c.canonicalUrlHash, "collided_prior_cycle", none⟩, r⟩ ∈ h

/-- Each selected candidate has exactly one owner of its slot. -/
theorem Dispatched.owned (own : Dispatched lib m b selected h) (mem : c ∈ selected) :
    (AcceptedJob m b c h ∧ ¬Collided b c h) ∨ (¬AcceptedJob m b c h ∧ Collided b c h) := by
  have once : (h.filterMap owner).Nodup := by
    rw [own.owners]
    refine List.Nodup.of_map Prod.snd ?_
    rw [List.map_map]
    exact own.selection.distinct
  have apart : AcceptedJob m b c h → ¬Collided b c h := by
    rintro job ⟨r, row⟩
    have same := eq_of_filterMap_nodup once job row (k := (b, c.canonicalUrlHash)) rfl rfl
    simp at same
  have found : (b, c.canonicalUrlHash) ∈ h.filterMap owner := by
    rw [own.owners]
    exact List.mem_map_of_mem mem
  obtain ⟨x, hx, e⟩ := List.mem_filterMap.mp found
  have asked := own.asked x hx
  unfold owner at e
  split at e
  next id m' c' b' t =>
    obtain ⟨mem', keys⟩ := asked
    have same : c' = c := by
      have hash := (Prod.mk.inj (Option.some.inj e)).2
      exact List.inj_on_of_nodup_map own.selection.distinct mem' mem hash
    subst same
    simp only [Prod.mk.injEq, Option.some.injEq] at keys
    obtain ⟨rfl, rfl, rfl, rfl⟩ := keys
    exact .inl ⟨hx, apart hx⟩
  next row r =>
    obtain ⟨c', mem', rfl⟩ := asked
    have hash : c'.canonicalUrlHash = c.canonicalUrlHash := (Prod.mk.inj (Option.some.inj e)).2
    have collided : Collided b c h := ⟨r, hash ▸ hx⟩
    exact .inr ⟨fun job => apart job collided, collided⟩
  next => simp at e

end Owned

theorem Selected.extend {lib : PyLib} {selected : List Candidate} {h : List NewsSaid} (own : Selected lib selected h)
    (more : List NewsSaid) : Selected lib selected (h ++ more) := by
  obtain ⟨queries, n, results, candidates, search, merge, sub⟩ := own.merged
  exact ⟨own.distinct, queries, n, results, candidates, List.mem_append_left _ search, merge, sub⟩

/-- A market is read by its id. -/
def readsMarket (s : Stmt) (r : Answer s) : Prop :=
  match s, r with
  | .getMarket id, some market => market.id = id
  | _, _ => True

/-- Nothing so far opens a batch or fills a slot. -/
def Quiet (h : List NewsSaid) : Prop := ∀ x ∈ h, x.1.slotless

theorem Quiet.append {h more : List NewsSaid} (old : Quiet h) (new : Quiet more) : Quiet (h ++ more) := by
  intro x hx
  rcases List.mem_append.mp hx with hx | hx
  · exact old x hx
  · exact new x hx

theorem Quiet.said {h : List NewsSaid} (old : Quiet h) {x : NewsSaid} (new : x.1.slotless) : Quiet (h ++ [x]) :=
  old.append (by simpa [Quiet] using new)

theorem Dispatched.of_fills {lib : PyLib} {m : Uuid} {selected : List Candidate} {watermark : Option Time}
    {new : Inserted} {h h' : List NewsSaid} (quiet : Quiet h) (selection : Selected lib selected h)
    (fills : Fills m new.id selected (selected.map fun c => (new.id, c.canonicalUrlHash))
      (h ++ [⟨.insertBatch m selected.length watermark, new⟩] ++ [⟨.commit, ()⟩]) h') :
    Dispatched lib m new.id selected h' := by
  obtain ⟨more, rfl, owners, asked⟩ := fills
  refine ⟨((selection.extend _).extend _).extend _, ⟨watermark, new, h, more, rfl, by simp⟩, ?_, fun x hx => ?_⟩
  · simp only [List.filterMap_append, owners_slotless quiet, owners]
    rfl
  · simp only [List.append_assoc, List.singleton_append, List.mem_append, List.mem_cons,
      List.not_mem_nil, or_false] at hx
    rcases hx with old | (rfl | rfl) | new
    · exact (quiet x old).dispatches
    · exact True.intro
    · exact True.intro
    · exact asked x new

section Cycle

variable {lib : PyLib} {cfg : Settings} {R : (s : Stmt) → Answer s → Prop} {α : Type}

theorem quiet_program {p : Program α} (each : p.Each Stmt.slotless fun _ => True) {h : List NewsSaid}
    (old : Quiet h) : p.Tells R (fun h' _ => Quiet h' ∧ ∃ more, h' = h ++ more) h := by
  refine (each.tells (Prog.Yields.trivial p) h).mono (fun h' _ => ?_) fun _ _ h => h
  rintro ⟨_, more, rfl, new⟩
  exact ⟨old.append new, more, rfl⟩

theorem selectCandidates_tells (market : Market) {h : List NewsSaid} (quiet : Quiet h) :
    (selectCandidates lib cfg market).Tells R
      (fun h' selected => Quiet h' ∧ Selected lib selected h') h := by
  have queries : (generateQueriesCall lib market.description).Each Stmt.slotless fun _ => True :=
    ⟨True.intro, fun _ => ofExcept_does (fun _ => True.intro) _⟩
  refine Prog.Obeys.bind ((quiet_program queries quiet).mono (fun h₁ found this => ?_) fun _ _ h => h)
  have quiet₁ := this.1
  refine ⟨True.intro, fun results _ => ?_⟩
  have quiet₂ : Quiet (h₁ ++ [⟨.searchSources found cfg.searchResultsPerSource, results⟩]) :=
    quiet₁.said (x := ⟨.searchSources _ _, results⟩) True.intro
  simp only [Prog.ret_bind]
  refine Prog.Obeys.bind (ofExcept_obeys fun candidates merge => ?_)
  refine ⟨True.intro, fun hashes _ => ⟨True.intro, fun now _ => ?_⟩⟩
  simp only [Prog.ret_bind]
  refine Prog.Obeys.bind (ofExcept_obeys fun recent recency => ?_)
  refine Prog.Obeys.bind (ofExcept_obeys fun kept stale => ?_)
  have sub : kept.Sublist candidates := (filterOlderThanWatermark_sublist stale).trans
    ((filterByRecency_sublist recency).trans List.filter_sublist)
  have distinct : UniqueHashes kept := (mergeResults_merged merge).distinct.sublist sub
  have quiet₃ := (quiet₂.said (x := ⟨.urlHashes market.id, hashes⟩) True.intro).said
    (x := ⟨.utcnow, now⟩) True.intro
  have search : ∀ {selected : List Candidate}, UniqueHashes selected → selected ⊆ kept →
      Selected lib selected (h₁ ++ [⟨.searchSources found cfg.searchResultsPerSource, results⟩]) :=
    fun own mem => ⟨own, found, _, results, candidates, List.mem_append_right _ List.mem_cons_self, merge,
      fun c hc => sub.subset (mem hc)⟩
  unfold selectRelevantCandidates
  split
  next => exact ⟨quiet₃, ((search distinct fun c hc => hc).extend _).extend _⟩
  next =>
    refine ⟨True.intro, fun vectors _ => ?_⟩
    simp only [Prog.ret_bind]
    split
    next => exact True.intro
    next => exact True.intro
    next queryVec candidateVecs _ =>
      have ranked := search (rankBySimilarity_unique lib queryVec candidateVecs cfg.candidatePrefilterTopK
        cfg.candidatePrefilterMinSimilarity distinct) fun c hc => rankBySimilarity_subset hc
      exact ⟨quiet₃.said (x := ⟨.embedTexts _, _⟩) True.intro, ((ranked.extend _).extend _).extend _⟩

/-- The cycle found no market to search for. -/
def Idle (m : Uuid) (h : List NewsSaid) : Prop :=
  ∃ found : Option Market, h = [⟨.getMarket m, found⟩] ∧ ∀ market, found = some market → market.status ≠ .active

/-- These are the candidates that the search and the filters select, given the answers of the cycle. -/
def Chose (lib : PyLib) (cfg : Settings) (m : Uuid) (selected : List Candidate) (h : List NewsSaid) : Prop :=
  ∃ market search after, market.status = .active ∧
    Prog.Concludes (selectCandidates lib cfg market) search (.ok selected) ∧
    h = ⟨.getMarket m, some market⟩ :: (search ++ after)

theorem Chose.extend {m : Uuid} {selected : List Candidate} {h : List NewsSaid} (chose : Chose lib cfg m selected h)
    (more : List NewsSaid) : Chose lib cfg m selected (h ++ more) := by
  obtain ⟨market, search, after, active, concludes, rfl⟩ := chose
  exact ⟨market, search, after ++ more, active, concludes, by simp⟩

/-- An uninterrupted cycle finds no active market, or it gives a slot of one batch to each of the candidates that it
selected, and none away where it selected nothing. -/
theorem processMarket_tells (m : Uuid) : (processMarket lib cfg m).Tells readsMarket
    (fun h _ => Idle m h ∨ ∃ selected, Chose lib cfg m selected h ∧
      (selected = [] ∧ Quiet h ∨ selected ≠ [] ∧ ∃ b, Dispatched lib m b selected h)) [] := by
  refine ⟨True.intro, fun found known => ?_⟩
  have quiet : Quiet [⟨.getMarket m, found⟩] := by simp [Quiet, Stmt.slotless]
  cases found with
  | none => exact .inl ⟨none, rfl, by simp⟩
  | some market =>
    obtain rfl : market.id = m := known
    simp only [Prog.ret_bind]
    split
    next inactive => exact .inl ⟨some market, rfl, fun market' same => Option.some.inj same ▸ inactive⟩
    next active =>
      refine Prog.Obeys.bind (((selectCandidates_tells market quiet).concludes).mono ?_ fun _ _ h => h)
      rintro h₁ selected ⟨⟨quiet₁, selection⟩, search, told, concludes⟩
      have chose₁ : Chose lib cfg market.id selected h₁ :=
        ⟨market, search, [], not_not.mp active, concludes, by rw [told, List.append_nil]; rfl⟩
      have assigned : ∀ change : MarketChange, (assignMarket market change).Each Stmt.slotless fun _ => True :=
        fun change => assignMarket_does market True.intro
      refine ⟨True.intro, fun lastPolledAt _ => ⟨True.intro, fun u _ => ?_⟩⟩
      have quiet₂ := (quiet₁.said (x := ⟨.utcnow, lastPolledAt⟩) True.intro).said (x := ⟨.uniform _, u⟩) True.intro
      have selection₂ := (selection.extend [⟨.utcnow, lastPolledAt⟩]).extend [⟨.uniform cfg.pollJitterFraction, u⟩]
      have chose₂ := (chose₁.extend [⟨.utcnow, lastPolledAt⟩]).extend [⟨.uniform cfg.pollJitterFraction, u⟩]
      simp only [Prog.ret_bind]
      refine Prog.Obeys.bind ((quiet_program (assigned _) quiet₂).mono ?_ fun _ _ h => h)
      rintro h₃ _ ⟨quiet₃, more₃, rfl⟩
      refine Prog.Obeys.bind ((quiet_program (assigned _) quiet₃).mono ?_ fun _ _ h => h)
      rintro h₄ _ ⟨quiet₄, more₄, rfl⟩
      have selection₄ := (selection₂.extend more₃).extend more₄
      have chose₄ := (chose₂.extend more₃).extend more₄
      split
      next none_selected =>
        subst none_selected
        refine ⟨True.intro, fun _ _ => ⟨True.intro, fun _ _ => ?_⟩⟩
        exact .inr ⟨[], (chose₄.extend _).extend _, .inl ⟨rfl, (quiet₄.said (x := ⟨.commit, ()⟩) True.intro).said
          (x := ⟨.enqueueJob _ (.processMarket _) _, _⟩) True.intro⟩⟩
      next some_selected =>
        refine ⟨True.intro, fun new _ => ⟨True.intro, fun _ _ => ?_⟩⟩
        refine (dispatchCycle_fills _ _).mono (fun h₅ _ fills => ?_) fun _ _ h => h
        refine .inr ⟨selected, ?_, .inr ⟨some_selected, new.id, .of_fills quiet₄ selection₄ fills⟩⟩
        obtain ⟨more, rfl, _⟩ := fills
        exact ((chose₄.extend _).extend _).extend more

end Cycle

end NewsNotifier
