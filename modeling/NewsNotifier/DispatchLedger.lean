import NewsNotifier.BatchSlots
import NewsNotifier.ResolvedSlots
import Mathlib.Data.List.Perm.Subperm

namespace NewsNotifier

open Interleaving

/-- No slot is recorded twice, and no batch counts more than its slots. -/
structure Parity (t : Tables) : Prop where
  slots : t.candidates.Nodup
  counted : ∀ row ∈ t.batches, row.resolvedCount ≤ t.counted row.id

namespace Parity

variable {t : Tables} {b : Uuid} {k : String} {n : Nat} {s : BatchStatus}

theorem addCandidate (h : Parity t) (new : (b, k) ∉ t.candidates) : Parity (t.addCandidate b k) where
  slots := by
    refine List.nodup_append.mpr ⟨h.slots, by simp, ?_⟩
    rintro x hx y hy rfl
    exact new (List.mem_singleton.mp hy ▸ hx)
  counted row hr := by
    have old := h.counted row hr
    rw [Counts.counted_addCandidate]
    omega

theorem setBatch (h : Parity t) (count : n ≤ t.counted b) : Parity (t.setBatch b n s) where
  slots := h.slots
  counted r hr := by
    obtain ⟨row, mem, rfl⟩ := Tables.mem_setBatch.mp hr
    have same : ∀ u, (t.setBatch b n s).counted u = t.counted u := fun _ => rfl
    rw [same]
    by_cases own : row.id = b
    · subst own
      simpa [NewsBatch.set] using count
    · simpa [own] using h.counted row mem

end Parity

theorem Commit.parity {P : Policy} {i : JobId} {x : Ledger} {t : Tables} (h : Commit P i x t)
    (old : Parity x.tables) : Parity t := by
  cases h with
  | nothing => exact old
  | opened row _ _ count _ _ =>
    refine ⟨old.slots, fun r hr => ?_⟩
    rcases List.mem_append.mp hr with hr | hr
    · exact old.counted r hr
    · obtain rfl := List.mem_singleton.mp hr
      omega
  | alone | solo | repeated => exact ⟨old.slots, old.counted⟩
  | late m b k item _ _ new _ =>
    have items : Parity (x.tables.addItem item) := ⟨old.slots, old.counted⟩
    exact items.addCandidate new
  | counted k row item _ new mem _ _ =>
    have items : Parity (x.tables.addItem item) := ⟨old.slots, old.counted⟩
    refine (items.addCandidate new).setBatch ?_
    have count := old.counted row mem
    rw [Counts.counted_addCandidate, if_pos rfl]
    exact Nat.succ_le_succ count
  | closed k row item log _ new mem _ _ _ =>
    have items : Parity (x.tables.addItem item) := ⟨old.slots, old.counted⟩
    have set : Parity (((x.tables.addItem item).addCandidate row.id k).setBatch row.id
        (row.resolvedCount + 1) .closed) := by
      refine (items.addCandidate new).setBatch ?_
      have count := old.counted row mem
      rw [Counts.counted_addCandidate, if_pos rfl]
      exact Nat.succ_le_succ count
    exact ⟨set.slots, set.counted⟩
  | forced row log _ mem _ _ =>
    have set : Parity (x.tables.setBatch row.id row.resolvedCount .closed) := old.setBatch (old.counted row mem)
    exact ⟨set.slots, set.counted⟩

theorem Act.parity {P : Policy} {a : Option JobId} {x y : Ledger} (h : Act P a x y) (old : Parity x.tables) :
    Parity y.tables := by
  cases h with
  | stay | lock | draw | post => exact old
  | commit hc => exact hc.parity old

/-- A batch of this market and size is in the table. -/
def Database.opened (db : Database) (b m : Uuid) (n : Nat) : Prop :=
  ∃ row ∈ db.batches, row.id = b ∧ row.marketId = m ∧ row.expectedCount = n

theorem opened_apply {db : Database} {b m : Uuid} {n : Nat} (h : db.opened b m n) (x : Write) :
    (x.apply db).opened b m n := by
  obtain ⟨row, hr, id, market, expected⟩ := h
  cases x with
  | insertBatch row' => exact ⟨row, List.mem_append_left _ hr, id, market, expected⟩
  | setBatch b' count status =>
    refine ⟨_, KeyedRows.mem_update.mpr ⟨row, hr, rfl⟩, ?_⟩
    split <;> exact ⟨id, market, expected⟩
  | _ => exact ⟨row, hr, id, market, expected⟩

theorem opened_after {db : Database} {b m : Uuid} {n : Nat} (h : db.opened b m n) (l : List Write) :
    (db.after l).opened b m n := by
  induction l generalizing db with
  | nil => exact h
  | cons x l ih => exact ih (opened_apply h x)

theorem opened_insert {l : List Write} {row : NewsBatch} (mem : .insertBatch row ∈ l) (db : Database) :
    (db.after l).opened row.id row.marketId row.expectedCount := by
  induction l generalizing db with
  | nil => simp at mem
  | cons x l ih =>
    rcases List.mem_cons.mp mem with rfl | mem
    · exact opened_after ⟨row, List.mem_append_right _ List.mem_cons_self, rfl, rfl, rfl⟩ l
    · exact ih mem _

theorem opened_steps {lib : PyLib} {admits : Admits} {w w' : NewsWorld} {b m : Uuid} {n : Nat}
    (h : Steps (newsSys lib admits) w w') (old : w.data.db.opened b m n) : w'.data.db.opened b m n := by
  obtain ⟨l, e⟩ := steps_after h
  exact e ▸ opened_after old l

/-- A batch that was closed before its count was complete. -/
def NewsBatch.forced (row : NewsBatch) : Prop := row.status = .closed ∧ row.resolvedCount < row.expectedCount

/-- Where the slots of a batch are among `hashes`, and as many, it is closed by parity with the last. -/
theorem parity_closed {P : Policy} {d : Data} (inv : d.ledger.Inv P) (parity : Parity d.db.tables)
    {row : NewsBatch} (mem : row ∈ d.db.batches) {hashes : List String} (unique : hashes.Nodup)
    (expected : row.expectedCount = hashes.length)
    (within : ∀ k, (row.id, k) ∈ d.db.tables.candidates → k ∈ hashes) (unforced : ¬row.forced) :
    row.status = .closed ↔ ∀ k ∈ hashes, (row.id, k) ∈ d.db.tables.candidates := by
  let slots := (d.db.tables.candidates.filter (·.1 = row.id)).map (·.2)
  have mem_slots : ∀ k, k ∈ slots ↔ (row.id, k) ∈ d.db.tables.candidates := by
    intro k
    simp [slots]
  have slots_unique : slots.Nodup := by
    refine List.Nodup.map_on ?_ (parity.slots.filter _)
    intro x hx y hy same
    have hx := of_decide_eq_true (List.mem_filter.mp hx).2
    have hy := of_decide_eq_true (List.mem_filter.mp hy).2
    exact Prod.ext (hx.trans hy.symm) same
  have length : slots.length = d.db.tables.counted row.id := List.length_map _
  have sub : slots ⊆ hashes := fun k hk => within k ((mem_slots k).mp hk)
  obtain ⟨bound, open_⟩ := inv.counts row mem
  constructor
  · intro closed k hk
    have complete : row.expectedCount ≤ row.resolvedCount := by
      by_contra less
      exact unforced ⟨closed, by omega⟩
    have counted : row.resolvedCount ≤ d.db.tables.counted row.id := parity.counted row mem
    have perm := (slots_unique.subperm sub).perm_of_length_le (by omega)
    exact (mem_slots k).mp (perm.mem_iff.mpr hk)
  · intro all
    by_contra opened
    have status : row.status = .opened := by
      cases e : row.status with
      | opened => rfl
      | closed => exact absurd e opened
    obtain ⟨count, less⟩ := open_ status
    have count : row.resolvedCount = d.db.tables.counted row.id := count
    have covered : hashes.length ≤ slots.length :=
      (unique.subperm fun k hk => (mem_slots k).mpr (all k hk)).length_le
    omega

theorem fanoutTask_governs (lib : PyLib) :
    (ledgerContract anyPolicy).Governs (newsSys lib fanoutTask) := anyPolicy_governs lib fanoutTask

/-- What the ledger holds in every reachable state. -/
theorem parity_reachable {lib : PyLib} {d₀ : Data} (h₀ : d₀.Initial) {w : NewsWorld}
    (h : Reachable (newsSys lib fanoutTask) d₀ w) :
    w.data.ledger.Inv anyPolicy ∧ Parity w.data.db.tables := by
  have start : (ledgerContract anyPolicy).Sound (newsSys lib fanoutTask) ⟨d₀, fun _ => none⟩ :=
    ⟨h₀.inv, by simp⟩
  have kept := (fanoutTask_governs lib).steps_ind (R := fun (d d' : Data) => Parity d.db.tables → Parity d'.db.tables)
    (fun old => old) (fun h h' old => h' (h old)) (fun _ act => Act.parity act) start h
  refine ⟨kept.1.data, kept.2 ⟨?_, ?_⟩⟩
  · simp [Database.tables, h₀.candidates]
  · simp [Database.tables, h₀.batches]

/-- The batch of a cycle is committed with its size. -/
theorem dispatched_opened {lib : PyLib} {admits : Admits} {i : JobId} {job : Task × Settings} {w w' : NewsWorld}
    {tr : List NewsEvent} (run : Execution (newsSys lib admits) i job w tr w') {m : Uuid} {n : Nat}
    {watermark : Option Time} {new : Inserted} {before after : List NewsEvent} {l : List Write} {d : Data}
    (split : tr = before ++ ⟨.insertBatch m n watermark, new, l, d⟩ :: after)
    (commit : ∃ e ∈ after, e.stmt = .commit) : w'.data.db.opened new.id m n := by
  obtain ⟨_, _, l', d', _, _, _, hx, _⟩ := run.split split
  have hx : exec lib i (.insertBatch m n watermark) new l d = some (l', d') := hx
  have staged : Write.insertBatch ⟨new.id, m, n, 0, .opened, new.now⟩ ∈ l' := by
    simp only [exec] at hx
    split at hx
    next =>
      obtain ⟨rfl, _⟩ := Prod.mk.inj (Option.some.inj hx)
      exact List.mem_append_right _ List.mem_cons_self
    next => simp at hx
  obtain ⟨v, db, ws, _, later, mem, committed⟩ := staged_committed run split hx staged commit
  refine opened_steps later ?_
  rw [committed]
  exact opened_insert mem db

theorem opened_unique {P : Policy} {d : Data} (inv : d.ledger.Inv P) {b m m' : Uuid} {n n' : Nat}
    (h : d.db.opened b m n) (h' : d.db.opened b m' n') : n = n' := by
  obtain ⟨row, hr, id, _, expected⟩ := h
  obtain ⟨row', hr', id', _, expected'⟩ := h'
  obtain rfl := inv.rows.unique hr hr' (id.trans id'.symm)
  exact expected.symm.trans expected'

section Closing

variable {lib : PyLib} {d₀ : Data} {v w' : NewsWorld} {b m : Uuid} {n : Nat} {hashes : List String}

/-- A batch whose slots are among `hashes` now has no others in any state before or after. -/
theorem slots_within (slotted : Slotted b hashes none w') (drawn : w'.data.hasDrawn b)
    (order : Steps (newsSys lib fanoutTask) v w' ∨ Steps (newsSys lib fanoutTask) w' v) {k : String}
    (mem : (b, k) ∈ v.data.db.tables.candidates) : k ∈ hashes := by
  rcases order with before | later
  · obtain ⟨l, e⟩ := steps_after before
    refine slotted.data.rows k ?_
    rw [e, after_candidates]
    exact List.mem_append_left _ mem
  · exact (slotted.steps later fun _ => drawn).data.rows k mem

theorem opened_expects (h₀ : d₀.Initial) (reach : Reachable (newsSys lib fanoutTask) d₀ w')
    (hv : Reachable (newsSys lib fanoutTask) d₀ v) (opened : w'.data.db.opened b m n)
    (order : Steps (newsSys lib fanoutTask) v w' ∨ Steps (newsSys lib fanoutTask) w' v) {row : NewsBatch}
    (mem : row ∈ v.data.db.batches) (id : row.id = b) : row.expectedCount = n := by
  have own : v.data.db.opened b row.marketId row.expectedCount := ⟨row, mem, id, rfl, rfl⟩
  rcases order with before | later
  · exact opened_unique (parity_reachable h₀ reach).1 (opened_steps before own) opened
  · exact opened_unique (parity_reachable h₀ hv).1 own (opened_steps later opened)

theorem dispatched_closes (h₀ : d₀.Initial) (reach : Reachable (newsSys lib fanoutTask) d₀ w')
    {selected : List Candidate} (slotted : Slotted b (selected.map (·.canonicalUrlHash)) none w')
    (drawn : w'.data.hasDrawn b) (opened : w'.data.db.opened b m selected.length) (distinct : UniqueHashes selected)
    (hv : Reachable (newsSys lib fanoutTask) d₀ v)
    (order : Steps (newsSys lib fanoutTask) v w' ∨ Steps (newsSys lib fanoutTask) w' v) {row : NewsBatch}
    (mem : row ∈ v.data.db.batches) (id : row.id = b) (unforced : ¬row.forced) :
    row.status = .closed ↔ ∀ c ∈ selected, v.data.db.hasCandidate b c.canonicalUrlHash = true := by
  subst id
  obtain ⟨inv, parity⟩ := parity_reachable h₀ hv
  have expected : row.expectedCount = (selected.map (·.canonicalUrlHash)).length := by
    rw [List.length_map]
    exact opened_expects h₀ reach hv opened order mem rfl
  rw [parity_closed inv parity mem distinct expected (fun k => slots_within slotted drawn order) unforced,
    List.forall_mem_map]
  exact forall₂_congr fun c _ => recorded_iff

end Closing

/-- Dispatch and ledger agree. An uninterrupted cycle finds its market missing or inactive, or it selects what the
search and the filters give for the answers that it had. If that is nothing, it opens no batch and gives no slot away;
else it opens one batch for the selected candidates, which come out of the merged search under hashes of their own: the
batch expects as many, and each of them has exactly one owner of its slot. In every state before or after, the batch is
then closed, unless by force, exactly when the last of them is recorded. -/
theorem dispatch_ledger (lib : PyLib) {d₀ : Data} (h₀ : d₀.Initial) {w w' : NewsWorld}
    (reach : Reachable (newsSys lib fanoutTask) d₀ w) {i : JobId} {m : Uuid} {cfg : Settings} {tr : List NewsEvent}
    (run : Execution (newsSys lib fanoutTask) i (.job (.processMarket m), cfg) w tr w') {l : List Write}
    (ended : w'.proc i = some (.ret (), l)) :
    Idle m (tr.map Event.said) ∨ ∃ selected, Chose lib cfg m selected (tr.map Event.said) ∧
      (selected = [] ∧ Quiet (tr.map Event.said) ∨ selected ≠ [] ∧ ∃ b, Dispatched lib m b selected (tr.map Event.said) ∧
      (∀ c ∈ selected, (AcceptedJob m b c (tr.map Event.said) ∧ ¬Collided b c (tr.map Event.said)) ∨
        (¬AcceptedJob m b c (tr.map Event.said) ∧ Collided b c (tr.map Event.said))) ∧
      w'.data.db.opened b m selected.length ∧
      ∀ v, Reachable (newsSys lib fanoutTask) d₀ v →
        (Steps (newsSys lib fanoutTask) v w' ∨ Steps (newsSys lib fanoutTask) w' v) →
        ∀ row ∈ v.data.db.batches, row.id = b → ¬row.forced →
          (row.status = .closed ↔ ∀ c ∈ selected, v.data.db.hasCandidate b c.canonicalUrlHash = true)) := by
  have told := run.tells (R := readsMarket) (Q := fun h _ => Idle m h ∨ ∃ selected, Chose lib cfg m selected h ∧
      (selected = [] ∧ Quiet h ∨ selected ≠ [] ∧ ∃ b, Dispatched lib m b selected h))
    (fun p d' hs => ?_) (fun e he => ?_) ended
  · rcases told with idle | ⟨selected, chose, ⟨none_selected, quiet⟩ | ⟨some_selected, b, own⟩⟩
    · exact .inl idle
    · exact .inr ⟨selected, chose, .inl ⟨none_selected, quiet⟩⟩
    · refine .inr ⟨selected, chose, .inr ⟨some_selected, b, own, fun c hc => own.owned hc, ?_⟩⟩
      obtain ⟨watermark, new, before, after, rfl, said⟩ := own.opened
      obtain ⟨before, rest, rfl, _, said⟩ := List.map_eq_append_iff.mp said
      obtain ⟨opens, rest, rfl, opened, said⟩ := List.map_eq_cons_iff.mp said
      obtain ⟨commits, after, rfl, committed, _⟩ := List.map_eq_cons_iff.mp said
      obtain ⟨s, answer, l₁, d₁⟩ := opens
      obtain ⟨rfl, answered⟩ := Sigma.mk.inj opened
      obtain rfl := eq_of_heq answered
      have asked : ∀ e ∈ before ++ ⟨.insertBatch m selected.length watermark, answer, l₁, d₁⟩ :: commits :: after,
          e.stmt.keepsSlots answer.id (selected.map (·.canonicalUrlHash)) :=
        fun e he => (own.asked e.said (List.mem_map_of_mem he)).keepsSlots
      have opened := dispatched_opened run rfl ⟨commits, List.mem_cons_self, (Sigma.mk.inj committed).1⟩
      obtain ⟨drawn, others⟩ := execution_slotted h₀ reach run rfl asked
      have slotted : Slotted answer.id (selected.map (·.canonicalUrlHash)) none w' := by
        refine ⟨others.data, others.staged, fun j p l₂ _ hj => ?_⟩
        by_cases same : j = i
        · subst same
          obtain ⟨rfl, _⟩ := Prod.mk.inj (Option.some.inj (ended.symm.trans hj))
          exact True.intro
        · exact others.asked j p l₂ (fun e => same (Option.some.inj e)) hj
      refine ⟨opened, fun v hv order row hr id unforced => ?_⟩
      exact dispatched_closes h₀ (reach.trans run.steps) slotted drawn opened own.selection.distinct hv order hr id
        unforced
  · obtain ⟨_, _, _, rfl, _⟩ := @newsSys_start lib fanoutTask _ _ _ _ _ _ hs
    exact processMarket_tells m
  · obtain ⟨_, _, l', d', _, _, hx, _⟩ := run.event he
    obtain ⟨s, answer, l, d⟩ := e
    have hx : exec lib i s answer l d = some (l', d') := hx
    show readsMarket s answer
    unfold readsMarket
    split
    next => exact read_market hx
    next => exact True.intro

def opensBatch : NewsEvent → Bool
  | ⟨.insertBatch _ _ _, _, _, _⟩ => true
  | _ => false

theorem dispatch_ledger_sample : ∃ (tr : List NewsEvent) (b : Uuid) (selected : List Candidate),
    selected ≠ [] ∧ Chose sampleLib sampleSettings 1 selected (tr.map Event.said) ∧
      Dispatched sampleLib 1 b selected (tr.map Event.said) := by
  have run : ((newsSys sampleLib fanoutTask).execute (.call 1) (.job (.processMarket 1), sampleSettings) sampleWorld
      (execs sampleLib (undatedOracle .none) (.call 1) 15)).any (fun x =>
        hasReturned x.2 (.call 1) && x.1.any opensBatch) = true := by
    decide +kernel
  obtain ⟨⟨tr, w'⟩, found, hp⟩ := (Option.any_eq_true _ _).mp run
  simp only [Bool.and_eq_true, List.any_eq_true] at hp
  obtain ⟨returned, e, he, opens⟩ := hp
  unfold hasReturned at returned
  split at returned
  next u l ended =>
    have loud : ¬Quiet (tr.map Event.said) := by
      intro quiet
      unfold opensBatch at opens
      split at opens
      next => exact quiet _ (List.mem_map_of_mem he)
      next => simp at opens
    rcases dispatch_ledger sampleLib sampleData_initial .refl (Sys.execute_execution found) ended with
      ⟨market, only, _⟩ | ⟨selected, chose, ⟨_, quiet⟩ | ⟨some_selected, b, own, _⟩⟩
    · refine absurd (fun x hx => ?_) loud
      obtain rfl := List.mem_singleton.mp (only ▸ hx)
      exact True.intro
    · exact absurd quiet loud
    · exact ⟨tr, b, selected, some_selected, chose, own⟩
  next => simp at returned

end NewsNotifier
