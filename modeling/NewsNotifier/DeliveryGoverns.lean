import NewsNotifier.DeliveryResumes

namespace NewsNotifier

open Interleaving

variable {lib : PyLib} {allow : Allows} {ordered : Prop} {i : JobId} {cfg : Settings} {d : Data}

def Task.isDelivery : Task → Bool
  | .job (.deliverBatch _) => true
  | _ => false

theorem Stmt.reading.aside {m : Uuid} {s : Stmt} (h : s.reading m) : s.aside := by
  cases s <;> first | exact True.intro | exact False.elim h

theorem Stmt.batching.aside {m : Uuid} {s : Stmt} (h : s.batching m) : s.aside := by
  cases s <;> first | exact True.intro | exact False.elim h

theorem aside_serves : Serves Stmt.aside :=
  ⟨fun _ _ h => h.aside, True.intro, fun _ _ h => h, fun _ => True.intro, fun _ => True.intro⟩

theorem taskProgram_aside {task : Task} (h : task.isDelivery = false) :
    (taskProgram lib cfg task).Each Stmt.aside fun _ => True := by
  have does : ∀ m s, Stmt.batching m s → s.aside := fun _ _ h => h.aside
  refine taskProgram_does aside_serves does (fun _ _ _ => True.intro) (fun _ h => h)
    (fun _ _ => True.intro) (fun _ _ _ _ _ _ => True.intro) ?_
  rintro j rfl
  cases j with
  | processMarket m =>
    exact processMarket_does m (fun _ => True.intro) aside_serves.reads does (fun _ => True.intro) aside_serves.sets
      (fun _ _ _ => True.intro) (fun _ _ => True.intro) (fun _ _ _ => True.intro)
      (fun _ _ => True.intro) fun _ => True.intro
  | processCandidate m candidate batchId =>
    exact processCandidate_does m (fun _ => True.intro) aside_serves.reads does
      (fun _ _ _ _ => True.intro) (fun _ => True.intro) fun _ _ h => h.delivered
  | deliverBatch logId => simp [Task.isDelivery] at h

theorem aside_resumes {p : Program Unit} (hp : p.Each Stmt.aside fun _ => True) :
    Resumes lib allow ordered i p (fun _ _ _ => True) [] d := by
  refine wp_mono (wp_of_each (K := fun l _ => Grows l) hp (fun _ _ _ _ _ h => h) ?_ .nil)
    (fun _ _ _ _ _ => True.intro) fun _ h => h
  intro s hs r l d l' d' hl _ hx
  exact aside_delivers hs hl (Sys.exec_of_restrict hx).2

theorem taskProgram_resumes (order : KeepsOrder ordered allow) {task : Task} (named : task.named i = true)
    (running : ∀ e, e.1 = i → (e ∈ d.deliveries.running ↔ e.2 = cfg.telegramEnabled)) :
    Resumes lib allow ordered i (taskProgram lib cfg task) (fun _ _ _ => True) [] d := by
  cases delivery : task.isDelivery with
  | false => exact aside_resumes (taskProgram_aside delivery)
  | true =>
    obtain ⟨logId, rfl⟩ : ∃ logId, task = .job (.deliverBatch logId) := by
      unfold Task.isDelivery at delivery
      split at delivery
      next logId => exact ⟨logId, rfl⟩
      next => simp at delivery
    refine deliverBatch_resumes order ?_ running
    cases i with
    | deliverBatch id => simpa [Task.named] using named
    | _ => simp [Task.named] at named

theorem begin_deliveries (d : Data) (i : JobId) (task : Task) (cfg : Settings) :
    (d.begin i task cfg).deliveries = { d.deliveries with
      running := (i, cfg.telegramEnabled) :: d.deliveries.running.filter (·.1 ≠ i) } := by
  simp only [Data.deliveries, Data.begin, List.map_cons, List.filter_map]
  rfl

theorem finish_deliveries (d : Data) (i : JobId) :
    ((d.release i).finish i).deliveries = { d.deliveries with
      running := d.deliveries.running.filter (·.1 ≠ i) } := by
  simp only [Data.deliveries, Data.finish, Data.release, List.filter_map]
  rfl

/-- Refinement: every step of the system is a step of the ledger and one of the deliveries. -/
theorem deliveryContract_governs (lib : PyLib) (order : KeepsOrder ordered allow) :
    (deliveryContract ordered).Governs ((newsSys lib plainTask).restrict allow) where
  keep := by
    rintro a d d' ⟨hi, hd⟩ ⟨act, delivers⟩
    have hi' := act.inv hi
    exact ⟨hi', delivers.inv hi.keyed (Ledger.Inv.keyed hi') hd⟩
  start := by
    rintro i ⟨task, cfg⟩ d p d' hs ⟨hi, hd⟩
    obtain ⟨ledger, meets⟩ := (plainPolicy_governs lib).start hs hi
    obtain ⟨named, _, _, rfl, rfl⟩ := newsSys_start hs
    refine ⟨⟨ledger, ?_⟩, ?_⟩
    · rw [begin_deliveries]
      exact .began _
    · have resumes : Resumes lib allow ordered i (taskProgram lib cfg task) (fun _ _ _ => True) []
          (d.begin i task cfg) := by
        refine taskProgram_resumes order named ?_
        rw [begin_deliveries]
        rintro ⟨k, on⟩ rfl
        simp
      let terms : Terms Data := { (deliveryContract ordered).terms i with
        guar := fun d d' => Act plainPolicy (some i) d.ledger d'.ledger }
      have strong : wp ((newsSys lib plainTask).restrict allow) terms i (taskProgram lib cfg task)
          (fun _ _ _ => True) (ledgerContract plainPolicy).fault [] (d.begin i task cfg) := by
        refine wp_strengthen (T := (ledgerContract plainPolicy).terms i) ?_ (fun _ h => h.1) ?_
          (fun _ _ _ _ _ _ _ _ h => h) (fun _ h => h) meets
        · exact fun s r l d l' d' hx => (Sys.exec_of_restrict hx).2
        · intro d d' hr
          refine Relation.ReflTransGen.mono ?_ _ _ hr
          rintro d d' ⟨a, ne, hi, hi', act⟩
          exact ⟨a, ne, hi.1, hi'.1, act.1⟩
      have both : ((deliveryContract ordered).terms i).Both terms (deliveryTerms ordered i) :=
        ⟨fun _ h => h, fun _ h => h, fun _ _ h => h, fun _ _ h => h, fun _ _ h h' => ⟨h, h'⟩⟩
      exact wp_mono (wp_both both strong resumes) (fun _ _ _ _ _ => True.intro) fun _ h => h.1
  stop {i d} hi := by
    refine ⟨(plainPolicy_governs lib).stop hi.1, ?_⟩
    change Delivers ordered (some i) d.deliveries ((d.release i).finish i).deliveries
    rw [finish_deliveries]
    exact .ended
  env := by
    rintro t d d' he hi
    refine ⟨(plainPolicy_governs lib).env he hi.1, ?_⟩
    obtain ⟨_, rfl⟩ := @newsSys_env lib plainTask _ _ _ he
    exact .stay _ _

theorem Data.Initial.deliveryInv (h : d.Initial) : (deliveryContract ordered).inv d := by
  refine ⟨h.inv, ?_, ?_⟩
  · simp [Data.deliveries, Database.deliveryRows, h.logs]
  · simp [Data.deliveries, Database.deliveryRows, h.items]

theorem plain_governs (lib : PyLib) : (deliveryContract False).Governs (newsSys lib plainTask) := by
  have all : (deliveryContract False).Governs ((newsSys lib plainTask).restrict fun _ _ _ _ _ => true) :=
    deliveryContract_governs lib False.elim
  rwa [Sys.restrict_true] at all

theorem reachable_logs {lib : PyLib} {d₀ : Data} (h₀ : d₀.Initial) {w : NewsWorld}
    (h : Reachable (newsSys lib plainTask) d₀ w) : (w.data.db.logs.map (·.id)).Nodup :=
  ((plain_governs lib).sound h₀.deliveryInv h).data.1.keyed.logs

end NewsNotifier
