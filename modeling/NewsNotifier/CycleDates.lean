import NewsNotifier.StoredArticles
import NewsNotifier.DeliveryGoverns

namespace NewsNotifier

open Interleaving

/-- The ids drawn so far. -/
def Data.ids (d : Data) : List Uuid := d.drawn.map (·.1)

/-- A date that may go with this batch: not before a watermark that the batch's cycle read. -/
def Data.Dated (d : Data) (batchId : Option Uuid) (date : Option Time) : Prop :=
  ∀ b, batchId = some b → b ∈ d.ids ∧ ∀ t, (b, some t) ∈ d.cycles → ∀ x, date = some x → t ≤ x

/-- Items and accepted jobs of a cycle are dated no earlier than its watermark, where dated. -/
structure Data.Chronological (lib : PyLib) (d : Data) : Prop where
  cycles : ∀ e ∈ d.cycles, e.1 ∈ d.ids
  items : ∀ o ∈ d.db.items, d.Dated o.batchId o.publishedAt
  jobs : ∀ q ∈ d.accepted, ∀ m c b, q.job = .processCandidate m c b →
    d.Dated b (readDate lib c.publishedAt)

/-- Ids and cycles are only added, a cycle under a fresh id. -/
structure Data.Extends (d d' : Data) : Prop where
  ids : ∀ u ∈ d.ids, u ∈ d'.ids
  cycles : ∀ e ∈ d'.cycles, e ∈ d.cycles ∨ e.1 ∉ d.ids

namespace Data

variable {lib : PyLib} {d d' d'' : Data} {batchId : Option Uuid} {date : Option Time}

theorem Extends.refl (d : Data) : d.Extends d := ⟨fun _ h => h, fun _ h => .inl h⟩

theorem Extends.trans (h : d.Extends d') (h' : d'.Extends d'') : d.Extends d'' where
  ids u hu := h'.ids u (h.ids u hu)
  cycles e he := by
    rcases h'.cycles e he with he | new
    · exact h.cycles e he
    · exact .inr fun old => new (h.ids _ old)

theorem Dated.extend (h : d.Dated batchId date) (hd : d.Extends d') : d'.Dated batchId date := by
  intro b hb
  obtain ⟨drawn, dated⟩ := h b hb
  refine ⟨hd.ids b drawn, fun t ht => ?_⟩
  rcases hd.cycles _ ht with old | new
  · exact dated t old
  · exact absurd drawn new

theorem Chronological.extend (h : d.Chronological lib) (hd : d.Extends d')
    (cycles : ∀ e ∈ d'.cycles, e.1 ∈ d'.ids)
    (items : ∀ o ∈ d'.db.items, (∃ o' ∈ d.db.items, o'.batchId = o.batchId ∧
      o'.publishedAt = o.publishedAt) ∨ d'.Dated o.batchId o.publishedAt)
    (jobs : ∀ q ∈ d'.accepted, q ∈ d.accepted ∨ ∀ m c b, q.job = .processCandidate m c b →
      d'.Dated b (readDate lib c.publishedAt)) : d'.Chronological lib where
  cycles := cycles
  items o ho := by
    rcases items o ho with ⟨o', ho', batch, date⟩ | new
    · exact batch ▸ date ▸ (h.items o' ho').extend hd
    · exact new
  jobs q hq := by
    rcases jobs q hq with old | new
    · exact fun m c b e => (h.jobs q old m c b e).extend hd
    · exact new

end Data

/-- What a statement may store or enqueue under batch `b`; `ok` tells which dates go with it. -/
def Stmt.fits (lib : PyLib) (b : Option Uuid) (ok : Option Time → Prop) : Stmt → Prop
  | .insertItem row => row.batchId = b ∧ ok row.publishedAt
  | .enqueueJob _ (.processCandidate _ c b') _ => b' = b ∧ ok (readDate lib c.publishedAt)
  | .assign (.insertItem _) => False
  | _ => True

/-- The staged items are dated, and so is whatever the rest of the program may store. -/
structure Fitting (b : Option Uuid) (ok : Option Time → Prop) (l : List Write) (d : Data) : Prop where
  staged : ∀ o, .insertItem o ∈ l → d.Dated o.batchId o.publishedAt
  later : ∀ date, ok date → d.Dated b date

theorem Fitting.extend {b : Option Uuid} {ok : Option Time → Prop} {l : List Write} {d d' : Data}
    (h : Fitting b ok l d) (hd : d.Extends d') : Fitting b ok l d' :=
  ⟨fun o ho => (h.staged o ho).extend hd, fun date hok => (h.later date hok).extend hd⟩

theorem Fitting.append {lib : PyLib} {b : Option Uuid} {ok : Option Time → Prop} {l : List Write}
    {d : Data} (h : Fitting b ok l d) {s : Stmt} {w : Write} (hs : s.fits lib b ok) (hw : s.Writes w) :
    Fitting b ok (l ++ [w]) d := by
  refine ⟨fun o ho => ?_, h.later⟩
  rcases List.mem_append.mp ho with ho | ho
  · exact h.staged o ho
  · obtain rfl := List.mem_singleton.mp ho
    cases hw with
    | item row u t =>
      obtain ⟨rfl, hok⟩ := hs
      exact h.later _ hok
    | assigned => exact hs.elim

/-- The rows of a commit are old items, or staged ones. -/
theorem after_dated {b : Option Uuid} {ok : Option Time → Prop} {l : List Write} {d d' : Data}
    (h : Fitting b ok l d) (hd : d.Extends d') : ∀ o ∈ (d.db.after l).items,
      (∃ o' ∈ d.db.items, o'.batchId = o.batchId ∧ o'.publishedAt = o.publishedAt) ∨
        d'.Dated o.batchId o.publishedAt := by
  intro o ho
  have mem : o.deliver ∈ (d.db.after l).tables.items := List.mem_map_of_mem ho
  rw [after_items] at mem
  rcases List.mem_append.mp mem with mem | mem
  · obtain ⟨o', ho', same⟩ := List.mem_map.mp mem
    simp only [NewsItem.deliver, NewsItem.mk.injEq] at same
    exact .inl ⟨o', ho', by tauto, by tauto⟩
  · obtain ⟨w, hw, e⟩ := List.mem_filterMap.mp mem
    cases w with
    | insertItem o' =>
      have same := Option.some.inj e
      simp only [NewsItem.deliver, NewsItem.mk.injEq] at same
      have dated := (h.staged o' hw).extend hd
      rw [show o'.batchId = o.batchId by tauto, show o'.publishedAt = o.publishedAt by tauto] at dated
      exact .inr dated
    | _ => simp [Write.item] at e

theorem not_drawn {d : Data} {u : Uuid} (fresh : d.isFresh u = true) : u ∉ d.ids := by
  intro old
  obtain ⟨e, he, rfl⟩ := List.mem_map.mp old
  simpa using List.all_eq_true.mp fresh e he

/-- One statement keeps the dates of the cycles. -/
theorem exec_chronological {lib : PyLib} {i : JobId} {s : Stmt} {r : Answer s} {l l' : List Write}
    {d d' : Data} {b : Option Uuid} {ok : Option Time → Prop} (hs : s.fits lib b ok)
    (hl : Fitting b ok l d) (hd : d.Chronological lib) (h : exec lib i s r l d = some (l', d')) :
    d.Extends d' ∧ d'.Chronological lib ∧ Fitting b ok l' d' := by
  have grown : ∀ {d' : Data}, d.Extends d' → d'.cycles = d.cycles → d'.accepted = d.accepted →
      (∀ o ∈ d'.db.items, (∃ o' ∈ d.db.items, o'.batchId = o.batchId ∧ o'.publishedAt = o.publishedAt) ∨
        d'.Dated o.batchId o.publishedAt) → d.Extends d' ∧ d'.Chronological lib := by
    intro d' ext cycles accepted items
    exact ⟨ext, hd.extend ext (fun e he => ext.ids _ (hd.cycles e (cycles ▸ he))) items
      fun q hq => .inl (accepted ▸ hq)⟩
  have same : ∀ {d' : Data}, d'.drawn = d.drawn → d'.cycles = d.cycles → d.Extends d' :=
    fun h h' => ⟨fun u hu => by rwa [Data.ids, h], fun e he => .inl (h' ▸ he)⟩
  have quiet : ∀ {d' : Data}, d'.db = d.db → d'.drawn = d.drawn → d'.cycles = d.cycles →
      d'.accepted = d.accepted → d.Extends d' ∧ d'.Chronological lib ∧ Fitting b ok l d' := by
    intro d' hdb h h' h''
    obtain ⟨ext, chron⟩ := grown (same h h') h' h'' fun o ho => .inl ⟨o, hdb ▸ ho, rfl, rfl⟩
    exact ⟨ext, chron, hl.extend ext⟩
  have drew : ∀ u, d.Extends (d.draw u i) ∧ (d.draw u i).Chronological lib := fun u =>
    grown ⟨fun _ hv => List.mem_cons_of_mem _ hv, fun _ h => .inl h⟩ rfl rfl
      fun o ho => .inl ⟨o, ho, rfl, rfl⟩
  cases exec_outcome h with
  | nothing | locked | sent | tracked => exact quiet rfl rfl rfl rfl
  | staged w writes => exact ⟨.refl d, hd, hl.append hs writes⟩
  | drew u fresh => exact ⟨(drew u).1, (drew u).2, hl.extend (drew u).1⟩
  | drewStaged u w fresh writes =>
    exact ⟨(drew u).1, (drew u).2, (hl.extend (drew u).1).append hs writes⟩
  | drewBatch u row w fresh writes id =>
    have ext : d.Extends { d.draw u i with cycles := (u, w) :: d.cycles } := by
      refine ⟨fun _ hv => List.mem_cons_of_mem _ hv, fun e he => ?_⟩
      rcases List.mem_cons.mp he with rfl | he
      · exact .inr (not_drawn fresh)
      · exact .inl he
    refine ⟨ext, hd.extend ext (fun e he => ?_) (fun o ho => .inl ⟨o, ho, rfl, rfl⟩) (fun q hq => .inl hq), ?_⟩
    · rcases List.mem_cons.mp he with rfl | he
      · exact List.mem_cons_self
      · exact List.mem_cons_of_mem _ (hd.cycles e he)
    · refine ⟨fun o ho => ?_, (hl.extend ext).later⟩
      rcases List.mem_append.mp ho with ho | ho
      · exact (hl.staged o ho).extend ext
      · simp at ho
  | committed =>
    have ext : d.Extends ({ d with db := d.db.after l }.release i) := same rfl rfl
    obtain ⟨ext, chron⟩ := grown ext rfl rfl (after_dated hl ext)
    exact ⟨ext, chron, by simp, (hl.extend ext).later⟩
  | marketInserted row =>
    have ext : d.Extends ({ d with db := (Write.insertMarket row).apply (d.db.after l) }.release i) :=
      same rfl rfl
    obtain ⟨ext, chron⟩ := grown ext rfl rfl (after_dated hl ext)
    exact ⟨ext, chron, by simp, (hl.extend ext).later⟩
  | enqueued q e free =>
    subst e
    have ext : d.Extends (d.enqueue i q) := same rfl rfl
    refine ⟨ext, hd.extend ext hd.cycles (fun o ho => .inl ⟨o, ho, rfl, rfl⟩) (fun q' hq => ?_), hl.extend ext⟩
    rcases List.mem_cons.mp hq with rfl | hq
    · refine .inr fun m c b' e => ?_
      rw [e] at hs
      obtain ⟨rfl, hok⟩ := hs
      exact (hl.later _ hok).extend ext
    · exact .inl hq

end NewsNotifier
