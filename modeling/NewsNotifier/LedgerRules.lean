import NewsNotifier.LedgerRefinement

namespace NewsNotifier

open Interleaving

/-- The invariant and the acts of the ledger, on the data behind it. -/
def ledgerContract (P : Policy) : Contract JobId Raised Data where
  inv d := d.ledger.Inv P
  act a d d' := Act P a d.ledger d'.ledger
  fault e := e ≠ .integrityError "uq_news_market_url"

/-- Process `i` at program `p` keeps the ledger's contract and ends in `Q`. -/
abbrev Meets (lib : PyLib) (admits : Admits) (P : Policy) (i : JobId) {α : Type} (p : Program α)
    (Q : α → List Write → Data → Prop) (l : List Write) (d : Data) : Prop :=
  wp (newsSys lib admits) ((ledgerContract P).terms i) i p Q (ledgerContract P).fault l d

theorem frame_of_rely {P : Policy} {i : JobId} {d d' : Data}
    (h : ((ledgerContract P).terms i).rely d d') : Frame P i d.ledger d'.ledger := by
  refine Contract.rely_ind (R := fun d d' => Frame P i d.ledger d'.ledger) (.refl _) .trans ?_ h
  rintro b c ⟨a, ha, hi, _, act⟩
  exact act.frame hi ha

theorem Ledger.Inv.unused {P : Policy} {x : Ledger} (h : x.Inv P) {u : Uuid}
    (fresh : ∀ e ∈ x.drawn, e.1 ≠ u) : x.tables.Unused u := by
  have ne : ∀ v ∈ x.drawn.map (·.1), v ≠ u := by
    intro v hv
    obtain ⟨e, he, rfl⟩ := List.mem_map.mp hv
    exact fresh e he
  exact {
    batch := fun row hr => ne _ (h.rows.batchDrawn row hr)
    item := fun o ho => ne _ (h.rows.itemDrawn o ho)
    log := fun log hl => ne _ (h.rows.logDrawn log hl).1
    key := fun log hl => ne _ (h.rows.logDrawn log hl).2 }

section Rules

variable {lib : PyLib} {admits : Admits} {P : Policy} {i : JobId} {α : Type}
  {Q : α → List Write → Data → Prop} {l : List Write} {d : Data}

theorem meets_ret {a : α} (h : ∀ d' : Data, Frame P i d.ledger d'.ledger → d'.ledger.Inv P → Q a l d') :
    Meets lib admits P i (.ret a) Q l d :=
  fun d' hr hi => h d' (frame_of_rely hr) hi

theorem meets_raise {e : Raised} (h : e ≠ .integrityError "uq_news_market_url") :
    Meets lib admits P i (.raise e : Program α) Q l d :=
  fun _ _ _ => h

/-- A read, an external call or a Redis command. -/
theorem meets_quiet {s : Stmt} {next : Answer s → Program α} (hq : s.quiet = true)
    (h : ∀ r (d' d'' : Data), Frame P i d.ledger d'.ledger → d'.ledger.Inv P →
      exec lib i s r l d' = some (l, d'') → d''.ledger = d'.ledger →
        Meets lib admits P i (next r) Q l d'') :
    Meets lib admits P i (.stmt s next) Q l d := by
  intro d' hr hi r l' d'' hx
  obtain ⟨rfl, same⟩ := exec_quiet hq hx
  refine ⟨?_, h r d' d'' (frame_of_rely hr) hi hx same⟩
  change Act P (some i) d'.ledger d''.ledger
  exact same ▸ .stay _ _

theorem meets_assign {w : Write} {next : Unit → Program α}
    (h : ∀ d' : Data, Frame P i d.ledger d'.ledger →
      Meets lib admits P i (next ()) Q (l ++ [w]) d') :
    Meets lib admits P i (.stmt (.assign w) next) Q l d := by
  intro d' hr hi r l' d'' hx
  obtain ⟨rfl, rfl⟩ := Prod.mk.inj (Option.some.inj hx)
  exact ⟨.stay _ _, h d' (frame_of_rely hr)⟩

theorem meets_lock {key : Int} {next : Unit → Program α}
    (h : ∀ d' : Data, Frame P i d.ledger d'.ledger → d'.ledger.Holds i key →
      Meets lib admits P i (next ()) Q l d') :
    Meets lib admits P i (.stmt (.advisoryXactLock key) next) Q l d := by
  intro d' hr hi r l' d'' hx
  change exec lib i (.advisoryXactLock key) r l d' = _ at hx
  simp only [exec] at hx
  split at hx
  next free =>
    obtain ⟨rfl, rfl⟩ := Prod.mk.inj (Option.some.inj hx)
    have locked : Act P (some i) d'.ledger { d'.ledger with locks := (key, i) :: d'.ledger.locks } := by
      refine .lock key ?_
      intro e he hk
      have := List.all_eq_true.mp free e he
      simpa [hk] using this
    refine ⟨locked, h _ ?_ List.mem_cons_self⟩
    exact (frame_of_rely hr).trans
      ⟨fun _ hk => List.mem_cons_of_mem _ hk, fun _ hu => hu, .refl _⟩
  next => simp at hx

theorem fresh_of_isFresh {u : Uuid} (h : d.isFresh u = true) : ∀ e ∈ d.ledger.drawn, e.1 ≠ u := by
  intro e he
  simpa using List.all_eq_true.mp h e he

/-- Drawing a fresh id is one act, and a frame for the process itself. -/
theorem draw_frame {u : Uuid} : Frame P i d.ledger (d.draw u i).ledger :=
  ⟨fun _ hk => hk, fun _ hu => List.mem_cons_of_mem _ hu, .refl _⟩

theorem meets_uuid4 {next : Uuid → Program α}
    (h : ∀ u (d' : Data), Frame P i d.ledger d'.ledger → d'.ledger.Drew i u → d'.ledger.tables.Unused u →
      (∀ v, d.ledger.Drew i v → v ≠ u) → Meets lib admits P i (next u) Q l d') :
    Meets lib admits P i (.stmt .uuid4 next) Q l d := by
  intro d' hr hi u l' d'' hx
  change exec lib i .uuid4 u l d' = _ at hx
  simp only [exec] at hx
  split at hx
  next fresh =>
    obtain ⟨rfl, rfl⟩ := Prod.mk.inj (Option.some.inj hx)
    have frame := frame_of_rely hr
    have new := fresh_of_isFresh fresh
    exact ⟨.draw u new, h u _ (frame.trans draw_frame) List.mem_cons_self (hi.unused new)
      fun v hv => new _ (frame.drew v hv)⟩
  next => simp at hx

theorem meets_insertLog {m b : Uuid} {ids : List Uuid} {next : Inserted → Program α}
    (h : ∀ (log : DeliveryLog) (new : Inserted) (d' : Data), log.head = ⟨new.id, m, b, ids⟩ →
      Frame P i d.ledger d'.ledger → d'.ledger.Drew i new.id → d'.ledger.tables.Unused new.id →
      (∀ v, d.ledger.Drew i v → v ≠ new.id) →
        Meets lib admits P i (next new) Q (l ++ [.insertLog log]) d') :
    Meets lib admits P i (.stmt (.insertLog m b ids) next) Q l d := by
  intro d' hr hi new l' d'' hx
  change exec lib i (.insertLog m b ids) new l d' = _ at hx
  simp only [exec] at hx
  split at hx
  next fresh =>
    obtain ⟨rfl, rfl⟩ := Prod.mk.inj (Option.some.inj hx)
    have frame := frame_of_rely hr
    have free := fresh_of_isFresh fresh
    exact ⟨.draw new.id free, h _ new _ rfl (frame.trans draw_frame) List.mem_cons_self
      (hi.unused free) fun v hv => free _ (frame.drew v hv)⟩
  next => simp at hx

/-- A commit turns the staged writes into one act. -/
theorem meets_commit {f : Tables → Tables} {next : Unit → Program α} (effect : Effect l f)
    (h : ∀ d' : Data, Frame P i d.ledger d'.ledger → d'.ledger.Inv P →
      Commit P i d'.ledger (f d'.ledger.tables) ∧
        ∀ d'' : Data, d''.ledger = d'.ledger.release i (f d'.ledger.tables) → d''.ledger.Inv P →
          Meets lib admits P i (next ()) Q [] d'') :
    Meets lib admits P i (.stmt .commit next) Q l d := by
  intro d' hr hi r l' d'' hx
  obtain ⟨rfl, rfl⟩ := Prod.mk.inj (Option.some.inj hx)
  obtain ⟨commit, rest⟩ := h d' (frame_of_rely hr) hi
  have same : Data.ledger (Data.release { d' with db := d'.db.after l } i) =
      d'.ledger.release i (f d'.ledger.tables) := by
    simp [Data.ledger, Data.release, Ledger.release, effect d'.db]
  have act : Act P (some i) d'.ledger (d'.ledger.release i (f d'.ledger.tables)) := .commit commit
  refine ⟨?_, rest _ same (same ▸ act.inv hi)⟩
  change Act P (some i) d'.ledger _
  exact same ▸ act

theorem meets_sendWebhook {url secret : String} {payload : WebhookPayload}
    {next : ChannelAnswer → Program α}
    (promised : ∀ d' : Data, Frame P i d.ledger d'.ledger → d'.ledger.Inv P → P.strict →
      ∃ log ∈ d'.ledger.tables.logs, (payload.batchId, payload.news.map (·.newsId)) =
        (log.batchId, log.newsItemIds))
    (h : ∀ answer (d' : Data), Frame P i d.ledger d'.ledger →
      Meets lib admits P i (next answer) Q l d') :
    Meets lib admits P i (.stmt (.sendWebhook url secret payload) next) Q l d := by
  intro d' hr hi answer l' d'' hx
  obtain ⟨rfl, rfl⟩ := Prod.mk.inj (Option.some.inj hx)
  have frame := frame_of_rely hr
  have posts : Data.ledger { d' with sent := d'.sent ++ [.webhook i url secret payload answer] } =
      { d'.ledger with
        posts := d'.ledger.posts ++ [(payload.batchId, payload.news.map (·.newsId))] } := by
    simp [Data.ledger, Sent.post]
  have act := Act.post (i := i) (x := d'.ledger) _ (promised d' frame hi)
  rw [← posts] at act
  exact ⟨act, h answer _ (frame.trans (posts ▸ ⟨fun _ hk => hk, fun _ hu => hu, .refl _⟩))⟩

/-- A program of reads, external calls and Redis commands. -/
theorem meets_quiet_program {p : Program α} (hp : p.Each (·.quiet = true) (ledgerContract P).fault) :
    Meets lib admits P i p (fun _ l' d' => l' = l ∧ Frame P i d.ledger d'.ledger) l d := by
  have h : ∀ d₁ : Data, Frame P i d.ledger d₁.ledger →
      Meets lib admits P i p (fun _ l' d' => l' = l ∧ Frame P i d.ledger d'.ledger) l d₁ := by
    induction p with
    | ret a => exact fun d₁ h₁ => meets_ret fun d₂ h₂ _ => ⟨rfl, h₁.trans h₂⟩
    | raise e => exact fun d₁ _ => meets_raise hp
    | stmt s next ih =>
      intro d₁ h₁
      refine meets_quiet hp.1 fun r d₂ d₃ h₂ _ _ same => ?_
      exact ih r (hp.2 r) d₃ (same ▸ h₁.trans h₂)
  exact h d (.refl _)

/-- The statements with which a process leaves the tables as they are. -/
def Stmt.calm : Stmt → Bool
  | .commit => true
  | .insertMarket _ => true
  | .uuid4 => true
  | .assign w => w.quiet
  | s => s.quiet

theorem Stmt.calm_of_quiet {s : Stmt} (h : s.quiet = true) : s.calm = true := by
  cases s <;> first | rfl | simp [Stmt.quiet] at h

theorem calm_serves : Serves (·.calm = true) :=
  ⟨fun _ _ h => Stmt.calm_of_quiet h.quiet, rfl, fun _ _ _ => rfl, fun _ => rfl, fun _ => rfl⟩

/-- A program that stages nothing the ledger sees. -/
theorem meets_calm_program {p : Program α} (hp : p.Each (·.calm = true) (ledgerContract P).fault)
    (effect : Effect l id) : Meets lib admits P i p (fun _ l' _ => Effect l' id) l d := by
  refine wp_of_each (K := fun l _ => Effect l id) hp (fun _ _ _ _ _ h => h) ?_ effect
  intro s hs r l d l' d' effect hi hx
  have finish : ∀ db : Database, db.tables = d.db.tables →
      Act P (some i) d.ledger (Data.release { d with db := db } i).ledger := by
    intro db same
    have : (Data.release { d with db := db } i).ledger = d.ledger.release i d.ledger.tables := by
      simp [Data.ledger, Data.release, Ledger.release, same]
    exact this ▸ .commit .nothing
  by_cases hq : s.quiet = true
  · obtain ⟨rfl, same⟩ := exec_quiet hq hx
    refine ⟨?_, effect⟩
    change Act P (some i) d.ledger d'.ledger
    exact same ▸ .stay _ _
  cases s with
  | commit =>
    obtain ⟨rfl, rfl⟩ := Prod.mk.inj (Option.some.inj hx)
    exact ⟨finish _ (effect d.db), .nil⟩
  | insertMarket row =>
    change exec lib i (.insertMarket row) r l d = _ at hx
    simp only [exec] at hx
    split at hx
    next =>
      obtain ⟨_, rfl, rfl⟩ := answered_eq hx
      exact ⟨.stay _ _, effect⟩
    next =>
      split at hx
      next =>
        obtain ⟨rfl, rfl⟩ := Prod.mk.inj (Option.some.inj hx)
        exact ⟨finish _ (effect d.db), .nil⟩
      next => simp at hx
  | uuid4 =>
    change exec lib i .uuid4 r l d = _ at hx
    simp only [exec] at hx
    split at hx
    next fresh =>
      obtain ⟨rfl, rfl⟩ := Prod.mk.inj (Option.some.inj hx)
      exact ⟨.draw r (fresh_of_isFresh fresh), effect⟩
    next => simp at hx
  | assign w =>
    obtain ⟨rfl, rfl⟩ := Prod.mk.inj (Option.some.inj hx)
    exact ⟨.stay _ _, effect.quiet hs⟩
  | _ => exact absurd hs hq

end Rules

end NewsNotifier
