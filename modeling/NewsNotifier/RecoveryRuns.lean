import NewsNotifier.DeliveryTally
import NewsNotifier.LoneRuns
import NewsNotifier.ReferentialIntegrity

namespace NewsNotifier

open Interleaving Prog

/-- What a channel answers is no refusal. -/
def Acknowledges : NewsSaid → Prop
  | ⟨.sendWebhook _ _ _, answer⟩ =>
    ∃ statusCode error, answer = .ok (statusCode, error) ∧ sendFailed statusCode error = false
  | ⟨.sendTelegram _ _ _ _, answer⟩ =>
    ∃ statusCode error, answer = .ok (statusCode, error) ∧ sendFailed statusCode error = false
  | _ => True

/-- All that was said since `h` was acknowledged. -/
def Acknowledged (h h' : List NewsSaid) : Prop := ∀ said ∈ h', said ∈ h ∨ Acknowledges said

theorem Acknowledged.since {h h' : List NewsSaid} {said : NewsSaid} (later : Acknowledged (h ++ [said]) h')
    (acks : Acknowledges said) : Acknowledged h h' := by
  intro other mem
  rcases later other mem with old | acked
  · rcases List.mem_append.mp old with old | last
    · exact .inl old
    · exact .inr (List.mem_singleton.mp last ▸ acks)
  · exact .inr acked

section Rules

variable {lib : PyLib} {i : JobId} {α : Type} {K K' : List Write → Prop} {h : List NewsSaid} {l : List Write} {d : Data}

/-- Alone, and acknowledged by the channels, the program can end with all it has written committed, and what it has
written meets `K`. -/
def Writes (lib : PyLib) (i : JobId) (p : Program Unit) (K : List Write → Prop) (h : List NewsSaid) (l : List Write)
    (d : Data) : Prop :=
  p.Can (newsSys lib plainTask) i
    (fun h' _ l' d' => l' = [] ∧ Acknowledged h h' ∧ ∃ ws, K ws ∧ d'.db = (d.db.after l).after ws) h l d

theorem Writes.mono {p : Program Unit} (writes : Writes lib i p K h l d) (hK : ∀ ws, K ws → K' ws) :
    Writes lib i p K' h l d :=
  Can.mono writes fun _ _ _ _ ⟨done, acked, ws, hk, same⟩ => ⟨done, acked, ws, hK ws hk, same⟩

theorem Writes.assign {x : Write} {next : Unit → Program Unit}
    (writes : Writes lib i (next ()) (fun ws => K (x :: ws)) (h ++ [⟨.assign x, ()⟩]) (l ++ [x]) d) :
    Writes lib i (.stmt (.assign x) next) K h l d := by
  refine ⟨(), l ++ [x], d, rfl, Can.mono writes ?_⟩
  rintro _ _ l' d' ⟨done, acked, ws, hk, same⟩
  exact ⟨done, acked.since True.intro, x :: ws, hk, by simpa [Database.after_append] using same⟩

theorem Writes.commit {next : Unit → Program Unit}
    (writes : Writes lib i (next ()) K (h ++ [⟨.commit, ()⟩]) [] ({ d with db := d.db.after l }.release i)) :
    Writes lib i (.stmt .commit next) K h l d :=
  ⟨(), [], _, rfl, Can.mono writes fun _ _ _ _ ⟨done, acked, last⟩ => ⟨done, acked.since True.intro, last⟩⟩

theorem Writes.last (hK : K []) : Writes lib i (.stmt .commit .ret) K h l d :=
  Writes.commit ⟨rfl, fun _ mem => .inl mem, [], hK, rfl⟩

/-- A statement that writes nothing, by one of its possible answers. -/
theorem Writes.call {s : Stmt} {next : Answer s → Program Unit} (r : Answer s) {d' : Data}
    (hx : exec lib i s r l d = some (l, d')) (same : d'.db = d.db) (acks : Acknowledges ⟨s, r⟩)
    (writes : Writes lib i (next r) K (h ++ [⟨s, r⟩]) l d') : Writes lib i (.stmt s next) K h l d := by
  refine ⟨r, l, d', hx, Can.mono writes ?_⟩
  rintro _ _ _ _ ⟨done, acked, ws, hk, final⟩
  exact ⟨done, acked.since acks, ws, hk, same ▸ final⟩

/-- A read, by an answer that it can have. -/
theorem Writes.read {s : Stmt} {next : Answer s → Program Unit} (r : Answer s) {ok : Bool}
    (reads : exec lib i s r l d = answered ok l d) (true_ : ok = true) (acks : Acknowledges ⟨s, r⟩)
    (writes : Writes lib i (next r) K (h ++ [⟨s, r⟩]) l d) : Writes lib i (.stmt s next) K h l d :=
  .call r (reads.trans (if_pos true_)) rfl acks writes

theorem Writes.delivered (items : List NewsItem) {rest : Program Unit}
    (writes : ∀ h' l' d', d'.db.after l' = (d.db.after l).after (items.map fun o => .setDelivered o.id) →
      Writes lib i rest (fun ws => K ((items.map fun o => .setDelivered o.id) ++ ws)) h' l' d') :
    Writes lib i ((forEach items fun item => await (.assign (.setDelivered item.id))).bind fun _ => rest) K h l d := by
  induction items generalizing l K h with
  | nil => exact writes h l d rfl
  | cons item items ih =>
    refine Writes.assign (ih fun h' l' d' view => writes h' l' d' ?_)
    rw [view, Database.after_append]
    rfl

end Rules

/-- What a successful attempt writes: to the row of its log, then success, its items and perhaps the
watermark. -/
def Succeeds (logId : Uuid) (items : List NewsItem) (ws : List Write) : Prop :=
  ∃ pre now last, (∀ x ∈ pre, ∃ c, x = Write.setLog logId c) ∧
    (∀ x ∈ last, ∃ m t, x = Write.setMarket m (.maxDeliveredPublishedAt t)) ∧
    ws = pre ++ ([.setLog logId (.status .success), .setLog logId (.error none), .setLog logId (.deliveredAt now)] ++
      ((items.map fun o => .setDelivered o.id) ++ last))

theorem Succeeds.cons {logId : Uuid} {items : List NewsItem} {ws : List Write} (h : Succeeds logId items ws)
    (c : LogChange) : Succeeds logId items (.setLog logId c :: ws) := by
  obtain ⟨pre, now, last, logs, marks, rfl⟩ := h
  refine ⟨.setLog logId c :: pre, now, last, fun x hx => ?_, marks, rfl⟩
  rcases List.mem_cons.mp hx with rfl | hx
  · exact ⟨c, rfl⟩
  · exact logs x hx

theorem logRow_mem {db : Database} {id : Uuid} {log : DeliveryLog} (h : db.logRow id = some log) :
    log ∈ db.logs ∧ log.id = id :=
  KeyedRows.key_of_find h

section Delivery

variable {lib : PyLib} {i : JobId} {cfg : Settings} {market : Market} {log : DeliveryLog} {items : List NewsItem}
  {h : List NewsSaid} {l : List Write} {d : Data}

end Delivery

section Written

variable {logId : Uuid} {items : List NewsItem} {ws : List Write} {db : Database}

theorem Succeeds.quiet (h : Succeeds logId items ws) : ∀ x ∈ ws, x.quiet = true := by
  obtain ⟨pre, now, last, logs, marks, rfl⟩ := h
  intro x hx
  simp only [List.mem_append, List.mem_map, List.mem_cons, List.not_mem_nil, or_false] at hx
  rcases hx with hx | (rfl | rfl | rfl) | ⟨o, _, rfl⟩ | hx
  · obtain ⟨c, rfl⟩ := logs x hx
    rfl
  · rfl
  · rfl
  · rfl
  · rfl
  · obtain ⟨m, t, rfl⟩ := marks x hx
    rfl

theorem Succeeds.tables (h : Succeeds logId items ws) (db : Database) : (db.after ws).tables = db.tables := by
  have quiet := h.quiet
  clear h
  induction ws generalizing db with
  | nil => rfl
  | cons x ws ih =>
    rw [Database.after_cons, ih _ fun y hy => quiet y (List.mem_cons_of_mem _ hy)]
    exact Write.quiet_tables (quiet x List.mem_cons_self) db

theorem onLog_head (x : Write) (row : DeliveryLog) : (x.onLog row).head = row.head := by
  cases x with
  | setLog id c =>
    simp only [Write.onLog]
    split
    next => cases c <;> rfl
    next => rfl
  | _ => rfl

theorem foldl_onLog_head (xs : List Write) (row : DeliveryLog) :
    (xs.foldl (fun row x => x.onLog row) row).head = row.head := by
  induction xs generalizing row with
  | nil => rfl
  | cons x xs ih => exact (ih _).trans (onLog_head x row)

theorem foldl_onLog_still {xs : List Write} (rests : ∀ x ∈ xs, ∀ row, x.onLog row = row) (row : DeliveryLog) :
    xs.foldl (fun row x => x.onLog row) row = row := by
  induction xs with
  | nil => rfl
  | cons x xs ih =>
    rw [List.foldl_cons, rests x List.mem_cons_self]
    exact ih fun y hy => rests y (List.mem_cons_of_mem _ hy)

theorem Succeeds.status (h : Succeeds logId items ws) {row : DeliveryLog} (found : db.logRow logId = some row) :
    ∃ row', (db.after ws).logRow logId = some row' ∧ row'.head = row.head ∧ row'.status = .success := by
  refine ⟨_, logRow_after found ws, foldl_onLog_head ws row, ?_⟩
  have own : row.id = logId := (logRow_mem found).2
  obtain ⟨pre, now, last, logs, marks, rfl⟩ := h
  have same := (congrArg LogHead.id (foldl_onLog_head pre row)).trans own
  have rests : ∀ x ∈ (items.map fun o => .setDelivered o.id) ++ last, ∀ row, x.onLog row = row := by
    intro x hx row
    rcases List.mem_append.mp hx with hx | hx
    · obtain ⟨o, _, rfl⟩ := List.mem_map.mp hx
      rfl
    · obtain ⟨m, t, rfl⟩ := marks x hx
      rfl
  rw [List.foldl_append, List.foldl_append, foldl_onLog_still rests]
  generalize pre.foldl (fun row x => x.onLog row) row = row' at same ⊢
  simp only [DeliveryLog.head] at same
  simp [Write.onLog, same, LogChange.apply]

theorem delivered_after {ids : List Uuid} {K : Uuid → Prop} (old : ∀ o ∈ db.items, K o.id → o.delivered = true)
    {o : NewsItem} (ho : o ∈ (db.after (ids.map .setDelivered)).items) (h : K o.id ∨ o.id ∈ ids) :
    o.delivered = true := by
  induction ids generalizing db K with
  | nil => exact old o ho (h.resolve_right List.not_mem_nil)
  | cons id ids ih =>
    refine ih (K := fun u => K u ∨ u = id) (fun o ho seen => ?_) ho ?_
    · obtain ⟨o', ho', rfl⟩ := KeyedRows.mem_update.mp ho
      split
      next => rfl
      next other =>
        rw [if_neg other] at seen
        exact old o' ho' (seen.resolve_right other)
    · rcases h with h | h
      · exact .inl (.inl h)
      · exact (List.mem_cons.mp h).imp_left .inr

theorem Succeeds.delivered (h : Succeeds logId items ws) {o : NewsItem} (ho : o ∈ (db.after ws).items)
    (listed : o.id ∈ items.map (·.id)) : o.delivered = true := by
  obtain ⟨pre, now, last, logs, marks, rfl⟩ := h
  rw [Database.after_append, Database.after_append, Database.after_append] at ho
  have same : ∀ db : Database, (db.after last).items = db.items := by
    intro db
    clear ho
    induction last generalizing db with
    | nil => rfl
    | cons x last ih =>
      obtain ⟨m, t, rfl⟩ := marks x List.mem_cons_self
      exact ih (fun y hy => marks y (List.mem_cons_of_mem _ hy)) _
  have ids : (items.map fun o => Write.setDelivered o.id) = (items.map (·.id)).map .setDelivered :=
    List.map_map.symm
  rw [same, ids] at ho
  exact delivered_after (K := fun _ => False) (fun _ _ h => h.elim) ho (.inr listed)

end Written

section Runs

variable {lib : PyLib} {cfg : Settings} {d₀ : Data} {w w' : NewsWorld}

/-- A task that can be done alone with what it writes committed is done so in some run. -/
theorem Writes.does {i : JobId} {task : Task} {K : List Write → Prop} (idle : ∀ i, w.proc i = none)
    (named : task.named i = true) (grounded : task.grounded w.data.db = true) (plain : task.plain = true)
    (writes : Writes lib i (taskProgram lib cfg task) K [] [] (w.data.begin i task cfg)) :
    ∃ w' tr, Completes (newsSys lib plainTask) i (task, cfg) w tr w' ∧ (∀ i, w'.proc i = none) ∧
      (∀ e ∈ tr, Acknowledges e.said) ∧ ∃ ws, K ws ∧ w'.data.db = w.data.db.after ws := by
  have starts : (newsSys lib plainTask).start i (task, cfg) w.data =
      some (taskProgram lib cfg task, w.data.begin i task cfg) := by
    simp [newsSys, plainTask, named, grounded, plain]
  obtain ⟨w', tr, l, d', run, quiet, ⟨-, acked, ws, hk, same⟩, last⟩ := Sys.does idle starts writes
  refine ⟨w', tr, run, quiet, fun e he => ?_, ws, hk, ?_⟩
  · exact (acked e.said (List.mem_map_of_mem he)).resolve_left List.not_mem_nil
  · rw [last]
    exact same

end Runs

end NewsNotifier
