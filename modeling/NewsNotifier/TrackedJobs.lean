import NewsNotifier.TaskStatements
import NewsNotifier.NewsRuns

namespace NewsNotifier

open Interleaving

def deletes (m : Uuid) : Program Unit → Bool
  | .stmt (.delete m') _ => m' = m
  | _ => false

/-- Between its `smembers` and its `delete` for a market, the ids that an abort has still to signal. -/
def aborting (m : Uuid) : Program Unit → Option (List JobId)
  | .stmt (.zadd ids) next => if deletes m (next ()) then some ids else none
  | .stmt (.delete m') _ => if m' = m then some [] else none
  | _ => none

def Reads (m : Uuid) (ids : List JobId) : (s : Stmt) → Answer s → Prop
  | .smembers m', r => m' = m ∧ r = ids
  | _, _ => False

/-- An abort signals what it has read of a market and deletes that market's set next. -/
def Shaped : Program Unit → Prop
  | .ret _ => True
  | .raise _ => True
  | .stmt s next => ∀ r, Shaped (next r) ∧ ∀ m ids, aborting m (next r) = some ids →
      Reads m ids s r ∨ ∃ ids', aborting m (.stmt s next) = some ids' ∧ s = .zadd ids'

/-- The statements that change neither the tracking sets nor the abort set, by removing or signalling. -/
def Stmt.spares : Stmt → Prop
  | .zadd _ => False
  | .delete _ => False
  | _ => True

abbrev Spares {α : Type} (p : Program α) : Prop := p.Each Stmt.spares fun _ => True

theorem Spares.aborting {p : Program Unit} (h : Spares p) (m : Uuid) : aborting m p = none := by
  cases p with
  | ret a => rfl
  | raise e => rfl
  | stmt s next =>
    cases s with
    | zadd ids => exact h.1.elim
    | delete m' => exact h.1.elim
    | _ => rfl

theorem Spares.shaped {p : Program Unit} (h : Spares p) : Shaped p := by
  induction p with
  | ret a => exact True.intro
  | raise e => exact True.intro
  | stmt s next ih =>
    intro r
    refine ⟨ih r (h.2 r), fun m ids he => ?_⟩
    have none := Spares.aborting (h.2 r) m
    rw [none] at he
    simp at he

/-- A task's program: none of it stands within an abort at its start. -/
def Tracks (p : Program Unit) : Prop := Shaped p ∧ ∀ m, aborting m p = none

theorem Spares.tracks {p : Program Unit} (h : Spares p) : Tracks p := ⟨h.shaped, h.aborting⟩

theorem Tracks.bind {α : Type} {p : Program α} {f : α → Program Unit} (hp : Spares p)
    (hf : ∀ a, Tracks (f a)) : Tracks (p.bind f) := by
  induction p with
  | ret a => exact hf a
  | raise e => exact ⟨True.intro, fun _ => rfl⟩
  | stmt s next ih =>
    constructor
    · intro r
      have rest := ih r (hp.2 r)
      refine ⟨rest.1, fun m ids he => ?_⟩
      change aborting m ((next r).bind f) = some ids at he
      rw [rest.2 m] at he
      simp at he
    · intro m
      cases s with
      | zadd ids => exact hp.1.elim
      | delete m' => exact hp.1.elim
      | _ => rfl

theorem aborting_delete {m m' : Uuid} {ids : List JobId} {next : Unit → Program Unit} :
    aborting m' (.stmt (.delete m) next) = some ids ↔ m = m' ∧ [] = ids := by
  simp [aborting]

theorem aborting_zadd {m m' : Uuid} {read ids : List JobId} {next : Unit → Program Unit} :
    aborting m' (.stmt (.zadd read) fun _ => .stmt (.delete m) next) = some ids ↔ m = m' ∧ read = ids := by
  simp [aborting, deletes]

theorem abortMarketJobs_tracks (m : Uuid) : Tracks ((abortMarketJobs m).bind fun _ => .ret ()) := by
  unfold abortMarketJobs
  simp only [await_eq, Prog.bind_eq, Prog.stmt_bind, Prog.ret_bind, Prog.pure_eq]
  refine ⟨fun read => ?_, fun _ => rfl⟩
  by_cases empty : read = []
  · subst empty
    simp only [if_pos, Prog.stmt_bind, Prog.ret_bind]
    refine ⟨fun _ => ⟨True.intro, fun _ _ he => by simp [aborting] at he⟩, fun m' ids he => .inl ?_⟩
    exact aborting_delete.mp he
  · simp only [if_neg empty, Prog.stmt_bind, Prog.ret_bind]
    refine ⟨fun _ => ⟨fun _ => ⟨True.intro, fun _ _ he => by simp [aborting] at he⟩, fun m' ids he => .inr ?_⟩,
      fun m' ids he => .inl (aborting_zadd.mp he)⟩
    exact ⟨read, aborting_zadd.mpr ⟨(aborting_delete.mp he).1, rfl⟩, rfl⟩

section Tasks

variable {lib : PyLib} {cfg : Settings}

theorem assignMarket_spares (market : Market) (change : MarketChange) : Spares (assignMarket market change) :=
  assignMarket_does market True.intro

theorem assignSome_spares {α : Type} (market : Market) (value : Option α) (change : α → MarketChange) :
    Spares (assignSome market value change) := by
  cases value with
  | none => exact True.intro
  | some a => exact assignMarket_spares market _

theorem assignSecret_spares (market : Market) (value : Option String) : Spares (assignSecret market value) := by
  cases value with
  | none => exact True.intro
  | some raw => exact ⟨True.intro, fun _ => assignMarket_spares market _⟩

theorem reading_spares (m : Uuid) (s : Stmt) (h : s.reading m) : s.spares := by
  cases s <;> first | exact True.intro | exact h.elim

theorem batching_spares (m : Uuid) (s : Stmt) (h : s.batching m) : s.spares := by
  cases s <;> first | exact True.intro | exact h.elim

theorem subscribe_spares (body : MarketSubscribeRequest) : Spares (subscribe cfg body) := by
  refine ⟨True.intro, fun existing => ?_⟩
  simp only [Prog.ret_bind]
  cases existing with
  | some market => exact True.intro
  | none =>
    refine ⟨True.intro, fun now => ⟨True.intro, fun secret => ⟨True.intro, fun id => ⟨True.intro,
      fun inserted => ?_⟩⟩⟩⟩
    simp only [Prog.ret_bind]
    split
    next => exact True.intro
    next => exact ⟨True.intro, fun _ => enqueuePoll_does (fun _ _ => True.intro) now id⟩

theorem Tracks.stmt {s : Stmt} {next : Answer s → Program Unit} (hs : s.spares) (h : ∀ r, Tracks (next r)) :
    Tracks (.stmt s next) :=
  Tracks.bind (p := .stmt s .ret) ⟨hs, fun _ => True.intro⟩ h

theorem unsubscribe_tracks (marketId : String) : Tracks (unsubscribe marketId) := by
  refine Tracks.stmt True.intro fun found => ?_
  simp only [Prog.ret_bind]
  cases found with
  | none => exact ⟨True.intro, fun _ => rfl⟩
  | some market =>
    refine Tracks.bind (assignMarket_spares market _) fun _ => Tracks.stmt True.intro fun _ => ?_
    exact abortMarketJobs_tracks market.id

theorem updateMarket_tracks (marketId : String) (body : MarketUpdateRequest) :
    Tracks (updateMarket marketId body) := by
  refine Tracks.stmt True.intro fun found => ?_
  simp only [Prog.ret_bind]
  cases found with
  | none => exact ⟨True.intro, fun _ => rfl⟩
  | some market =>
    refine Tracks.bind (assignSome_spares market _ _) fun _ => Tracks.bind (assignSome_spares market _ _) fun _ =>
      Tracks.bind (assignSome_spares market _ _) fun _ => Tracks.bind (assignSecret_spares market _) fun _ =>
      Tracks.bind (assignSome_spares market _ _) fun _ => Tracks.stmt True.intro fun _ =>
      Tracks.stmt True.intro fun refreshed => ?_
    simp only [Prog.ret_bind]
    cases refreshed with
    | none => exact ⟨True.intro, fun _ => rfl⟩
    | some refreshed =>
      dsimp only
      split
      next => exact abortMarketJobs_tracks market.id
      next =>
        split
        next =>
          refine Spares.tracks ⟨True.intro, fun now => ?_⟩
          exact enqueuePoll_does (fun _ _ => True.intro) now market.id
        next => exact ⟨True.intro, fun _ => rfl⟩

theorem jobProgram_spares (job : Job) : Spares (jobProgram lib cfg job) := by
  cases job with
  | processMarket m =>
    exact processMarket_does m (fun _ => True.intro) reading_spares batching_spares (fun _ => True.intro)
      (fun _ _ _ => True.intro) (fun _ _ _ => True.intro) (fun _ _ => True.intro) (fun _ _ _ => True.intro)
      (fun _ _ => True.intro) fun _ => True.intro
  | processCandidate m c b =>
    exact processCandidate_does m (fun _ => True.intro) reading_spares batching_spares
      (fun _ _ _ _ => True.intro) (fun _ => True.intro) fun _ _ _ => True.intro
  | deliverBatch logId =>
    refine deliverBatch_does (fun s h => ?_) (fun _ => True.intro) True.intro (fun _ _ _ => True.intro) logId
    cases s <;> first | exact True.intro | exact h.elim

theorem taskProgram_tracks (task : Task) : Tracks (taskProgram lib cfg task) := by
  have sends : ∀ logId, Spares (enqueueDelivery logId) := enqueueDelivery_does fun _ => True.intro
  cases task with
  | job j => exact (jobProgram_spares j).tracks
  | subscribe body => exact (subscribe_spares body).tracks
  | unsubscribe marketId => exact unsubscribe_tracks marketId
  | updateMarket marketId body => exact updateMarket_tracks marketId body
  | enqueueDueMarkets => exact Spares.tracks (enqueueDueMarkets_does reading_spares fun _ _ => True.intro)
  | enqueueStuckDeliveries => exact Spares.tracks (enqueueStuckDeliveries_does reading_spares batching_spares)
  | enqueueStuckBatches => exact Spares.tracks (enqueueStuckBatches_does reading_spares batching_spares)
  | resolveBatchCandidate m b h outcome item =>
    exact Spares.tracks ((resolveBatchCandidate_does (batching_spares m) True.intro).bind sends)
  | forceCloseBatch m b => exact Spares.tracks ((forceCloseBatch_does (batching_spares m) b).bind sends)
  | openBatch m n => exact Spares.tracks (openBatch_does True.intro (fun _ _ _ => True.intro) m n)

end Tasks

end NewsNotifier
