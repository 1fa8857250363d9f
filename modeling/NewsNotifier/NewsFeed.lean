import NewsNotifier.OrderedPages
import NewsNotifier.ReferentialIntegrity
import NewsNotifier.Subscriptions

namespace NewsNotifier

open Interleaving OrderedPages

/-- The ids are sent as strings; `str` is injective on them. -/
structure NewsItemResponse where
  id : Uuid
  marketId : Option String
  title : String
  summary : String
  url : String
  sourceDomain : String
  publishedAt : Option Time
  credibilityScore : Rat
  relevanceScore : Rat
  impactHint : ImpactHint
  proofs : List String
  deriving DecidableEq

def newsItemResponse (marketId : Option String) (item : NewsItem) : NewsItemResponse :=
  ⟨item.id, marketId, item.title, item.summary, item.url, item.sourceDomain, item.publishedAt, item.credibilityScore,
    item.relevanceScore, item.impactHint, item.proofs⟩

/-- `SELECT news_items, markets.external_market_id FROM news_items JOIN markets ON markets.id = news_items.market_id`. -/
def Database.feedRows (db : Database) : List (NewsItem × String) :=
  db.items.flatMap fun item =>
    (db.markets.filter (·.id = item.marketId)).map fun market => (item, market.externalMarketId)

/-- `Query(100, ge=1, le=500)`. -/
def feedLimit (limit : Option Int) : Except Raised Nat :=
  let limit := limit.getD 100
  if 1 ≤ limit ∧ limit ≤ 500 then .ok limit.toNat else .error (.httpException 422)

/-- The answer to `GET /news`, where `rows` is what the query returned; `none` where it cannot return them. -/
def listAllNews (limit : Option Int) (db : Database) (rows : List (NewsItem × String)) :
    Option (Except Raised (List NewsItemResponse)) :=
  match feedLimit limit with
  | .error e => some (.error e)
  | .ok n =>
    if isPage (fun a b => orderedBefore a.1 b.1) n db.feedRows rows then
      some (.ok (rows.map fun row => newsItemResponse (some row.2) row.1))
    else none

/-- The answer to `GET /markets/{id}/news`, whose queries each read what is committed by then. -/
def listMarketNews (marketId : String) (db db' : Database) (rows : List NewsItem) :
    Option (Except Raised (List NewsItemResponse)) :=
  match db.markets.find? (·.externalMarketId = marketId) with
  | none => some (.error (.httpException 404))
  | some market =>
    if isPage orderedBefore (db'.itemsOf market.id).length (db'.itemsOf market.id) rows then
      some (.ok (rows.map (newsItemResponse none)))
    else none

/-- `published_at DESC NULLS LAST`. -/
def publishedBefore : Option Time → Option Time → Bool
  | some x, some y => y ≤ x
  | some _, none => true
  | none, some _ => false
  | none, none => true

theorem published_ordered {a b : NewsItem} (h : orderedBefore a b = true) :
    publishedBefore a.publishedAt b.publishedAt = true := by
  unfold orderedBefore at h
  unfold publishedBefore
  cases ha : a.publishedAt <;> cases hb : b.publishedAt <;> simp only [ha, hb] at h ⊢
  · cases h
  · simp only [Bool.or_eq_true, Bool.and_eq_true, decide_eq_true_eq] at h ⊢
    exact h.elim le_of_lt fun h => ge_of_eq h.1

instance : Std.Total (fun a b : NewsItem × String => orderedBefore a.1 b.1 = true) :=
  ⟨fun a b => Std.Total.total (r := fun a b : NewsItem => orderedBefore a b = true) a.1 b.1⟩

instance : IsTrans (NewsItem × String) (fun a b => orderedBefore a.1 b.1 = true) :=
  ⟨fun a b c => IsTrans.trans (r := fun a b : NewsItem => orderedBefore a b = true) a.1 b.1 c.1⟩

/-- The name that the feed labels a market's items with. -/
def Database.nameOf (db : Database) (id : Uuid) : Option String := (db.market id).map (·.externalMarketId)

section Join

variable {db : Database} (ids : (db.markets.map (·.id)).Nodup)
  (owned : ∀ o ∈ db.items, ∃ market ∈ db.markets, market.id = o.marketId)

include ids owned

theorem market_of_item {o : NewsItem} (ho : o ∈ db.items) : ∃ market ∈ db.markets, market.id = o.marketId ∧
    db.market o.marketId = some market ∧ db.markets.filter (·.id = o.marketId) = [market] := by
  obtain ⟨market, hm, own⟩ := owned o ho
  refine ⟨market, hm, own, own ▸ KeyedRows.find_of_mem ids hm, ?_⟩
  have once : (db.markets.filter (·.id = o.marketId)).Nodup := (ids.of_map).filter _
  refine List.Perm.eq_singleton ((List.perm_ext_iff_of_nodup once (List.nodup_singleton _)).mpr fun other => ?_)
  simp only [List.mem_filter, decide_eq_true_eq, List.mem_singleton]
  constructor
  · rintro ⟨ho, same⟩
    exact List.inj_on_of_nodup_map ids ho hm (same.trans own.symm)
  · rintro rfl
    exact ⟨hm, own⟩

/-- The join has each item once, with the name of its market. -/
theorem feedRows_eq : ∃ name : Uuid → String, (∀ o ∈ db.items, db.nameOf o.marketId = some (name o.marketId)) ∧
    db.feedRows = db.items.map fun o => (o, name o.marketId) := by
  refine ⟨fun id => (db.nameOf id).getD "", fun o ho => ?_, ?_⟩
  · obtain ⟨market, _, _, found, _⟩ := market_of_item ids owned ho
    simp [Database.nameOf, found]
  · rw [Database.feedRows, List.map_eq_flatMap]
    refine List.flatMap_congr fun o ho => ?_
    obtain ⟨market, _, _, found, alone⟩ := market_of_item ids owned ho
    simp [Database.nameOf, found, alone]

/-- An answer of `GET /news` is a page of the items alone, each labelled with its market. -/
theorem feed_page {limit : Option Int} {rows : List (NewsItem × String)} {feed : List NewsItemResponse}
    (answer : listAllNews limit db rows = some (.ok feed)) :
    ∃ n items, feedLimit limit = .ok n ∧ Page (fun a b => orderedBefore a b = true) n db.items items ∧
      feed = items.map fun o => newsItemResponse (db.nameOf o.marketId) o := by
  unfold listAllNews at answer
  split at answer
  next => simp at answer
  next n limited =>
    split at answer
    next page =>
      obtain ⟨name, named, joined⟩ := feedRows_eq ids owned
      have page := isPage_iff.mp page
      have whole := page.map (f := Prod.fst) (S := fun a b => orderedBefore a b = true) fun _ _ h => h
      have alone : db.feedRows.map Prod.fst = db.items := by
        rw [joined, List.map_map]
        exact List.map_id _
      rw [alone] at whole
      refine ⟨n, rows.map Prod.fst, limited, whole, ?_⟩
      rw [← Except.ok.inj (Option.some.inj answer), List.map_map]
      refine List.map_congr_left fun row hr => ?_
      have inside := page.mem hr
      rw [joined] at inside
      obtain ⟨o, ho, rfl⟩ := List.mem_map.mp inside
      simp [named o ho]
    next => simp at answer

end Join

section Runs

variable {lib : PyLib} {d₀ : Data} {w w' : NewsWorld}

/-- What of an item a response shows, nothing updates. -/
theorem response_kept (run : Steps (newsSys lib serviceTask) w w') {o : NewsItem} (ho : o ∈ w.data.db.items) :
    ∃ o' ∈ w'.data.db.items, o'.marketId = o.marketId ∧ (∀ name, newsItemResponse name o' = newsItemResponse name o) ∧
      ∀ b, orderedBefore b o' = orderedBefore b o := by
  obtain ⟨o', ho', same⟩ := List.mem_map.mp (items_accrue.steps run (List.mem_map_of_mem ho))
  refine ⟨o', ho', (deliver_columns same).2.1, fun name => ?_, fun b => ?_⟩
  · have shown : newsItemResponse name o'.deliver = newsItemResponse name o.deliver := congrArg _ same
    exact shown
  · have ordered : orderedBefore b o'.deliver = orderedBefore b o.deliver := congrArg _ same
    exact ordered

theorem name_kept (h₀ : d₀.Initial) (names : (d₀.db.markets.map (·.externalMarketId)).Nodup)
    (reach : Reachable (newsSys lib serviceTask) d₀ w) (run : Steps (newsSys lib serviceTask) w w') {m : Uuid}
    {market : Market} (known : w.data.db.market m = some market) :
    w'.data.db.nameOf m = some market.externalMarketId := by
  obtain ⟨mem, rfl⟩ := KeyedRows.key_of_find known
  have ids := (registered h₀ names (reach.trans run)).ids
  obtain ⟨market', mem', same⟩ := List.mem_map.mp (markets_accrue.steps run (List.mem_map_of_mem mem))
  rw [Database.marketKeys, List.map_map] at ids
  have found : w'.data.db.market market'.id = some market' := KeyedRows.find_of_mem ids mem'
  have id : market'.id = market.id := congrArg Prod.fst same
  have name : market'.externalMarketId = market.externalMarketId := congrArg Prod.snd same
  rw [Database.nameOf, ← id, found, Option.map_some, name]

/-- In every reachable state the feed is a page of all items, newest first, each once and under the name of its
market, and none that it leaves out is newer than one that it has; its entries of one market begin an answer to that
market's own list; and an entry leaves the feed only when as many others as the limit, none of them older, have come
before it. -/
theorem news_feed (lib : PyLib) (h₀ : d₀.Initial) (names : (d₀.db.markets.map (·.externalMarketId)).Nodup)
    (reach : Reachable (newsSys lib serviceTask) d₀ w) {limit : Option Int} {rows : List (NewsItem × String)}
    {feed : List NewsItemResponse} (answer : listAllNews limit w.data.db rows = some (.ok feed)) :
    (feed.map (·.id)).Nodup ∧ feed.length = min (limit.getD 100).toNat w.data.db.items.length ∧
    (feed.Pairwise fun a b => publishedBefore a.publishedAt b.publishedAt = true) ∧
    (∃ items, Page (fun a b => orderedBefore a b = true) (limit.getD 100).toNat w.data.db.items items ∧
      feed.map (·.id) = items.map (·.id) ∧ ∀ item ∈ w.data.db.items, item.id ∉ feed.map (·.id) →
        ∀ entry ∈ feed, publishedBefore entry.publishedAt item.publishedAt = true) ∧
    (∀ entry ∈ feed, ∃ item ∈ w.data.db.items, ∃ market ∈ w.data.db.markets, item.marketId = market.id ∧
      entry = newsItemResponse (some market.externalMarketId) item) ∧
    (∀ market ∈ w.data.db.markets, ∃ own list,
      listMarketNews market.externalMarketId w.data.db w.data.db own = some (.ok list) ∧
      (feed.filter (·.marketId = some market.externalMarketId)).map
        (fun entry => { entry with marketId := none }) <+: list) ∧
    ∀ w', Steps (newsSys lib serviceTask) w w' → ∀ rows' feed', listAllNews limit w'.data.db rows' = some (.ok feed') →
      ∀ entry ∈ feed, entry ∉ feed' → feed'.length = (limit.getD 100).toNat ∧
        ∀ other ∈ feed', publishedBefore other.publishedAt entry.publishedAt = true := by
  have kept := registered h₀ names reach
  have ids := kept.ids
  have externals := kept.names
  have owned := item_market h₀ reach
  have itemIds := item_keys (reachable_inv h₀ (service_steps reach))
  rw [Database.marketKeys, List.map_map] at ids externals
  obtain ⟨n, items, limited, page, rfl⟩ := feed_page ids owned answer
  have size : n = (limit.getD 100).toNat := by
    simp only [feedLimit] at limited
    split at limited
    · exact (Except.ok.inj limited).symm
    · cases limited
  have shownIds : (items.map fun o => newsItemResponse (w.data.db.nameOf o.marketId) o).map (·.id) = items.map (·.id) :=
    List.map_map
  refine ⟨?_, ?_, ?_, ?_, ?_, ?_, ?_⟩
  · rw [shownIds]
    exact page.nodup itemIds
  · rw [List.length_map, page.length, size]
  · exact List.pairwise_map.mpr (page.pairwise.imp published_ordered)
  · refine ⟨items, size ▸ page, shownIds, fun item stored out entry he => ?_⟩
    obtain ⟨o, ho, rfl⟩ := List.mem_map.mp he
    rw [shownIds] at out
    exact published_ordered (page.missed stored (fun there => out (List.mem_map_of_mem there)) ho)
  · intro entry he
    obtain ⟨o, ho, rfl⟩ := List.mem_map.mp he
    obtain ⟨market, hm, own, found, _⟩ := market_of_item ids owned (page.mem ho)
    exact ⟨o, page.mem ho, market, hm, own.symm, by simp [Database.nameOf, found]⟩
  · intro market hm
    have named : w.data.db.markets.find? (·.externalMarketId = market.externalMarketId) = some market :=
      KeyedRows.find_of_mem externals hm
    obtain ⟨own, whole, begins⟩ := (page.filter fun o => o.marketId = market.id).longer
      ((page.subperm.filter _).length_le)
    refine ⟨own, own.map (newsItemResponse none), ?_, ?_⟩
    · simp only [listMarketNews, named]
      exact if_pos (isPage_iff.mpr whole)
    · have labels : ∀ o ∈ items,
          (newsItemResponse (w.data.db.nameOf o.marketId) o).marketId = some market.externalMarketId ↔
          o.marketId = market.id := by
        intro o ho
        obtain ⟨other, hother, same, found, _⟩ := market_of_item ids owned (page.mem ho)
        have name : w.data.db.nameOf o.marketId = some other.externalMarketId := by simp [Database.nameOf, found]
        simp only [newsItemResponse, name, Option.some.injEq]
        constructor
        · intro label
          rw [← same, List.inj_on_of_nodup_map externals hother hm label]
        · intro owner
          rw [List.inj_on_of_nodup_map ids hother hm (same.trans owner)]
      have entries : ((items.map fun o => newsItemResponse (w.data.db.nameOf o.marketId) o).filter
          (·.marketId = some market.externalMarketId)).map (fun entry => { entry with marketId := none }) =
            (items.filter fun o => o.marketId = market.id).map (newsItemResponse none) := by
        rw [List.filter_map, List.map_map]
        refine congrArg _ (List.filter_congr fun o ho => decide_eq_decide.mpr (labels o ho))
      rw [entries]
      exact begins.map _
  · intro w' run rows' feed' later entry he out
    obtain ⟨o, ho, rfl⟩ := List.mem_map.mp he
    have kept' := registered h₀ names (reach.trans run)
    have ids' := kept'.ids
    rw [Database.marketKeys, List.map_map] at ids'
    obtain ⟨n', items', limited', page', rfl⟩ := feed_page ids' (item_market h₀ (reach.trans run)) later
    obtain rfl := Except.ok.inj (limited.symm.trans limited')
    obtain ⟨o', ho', market, same, order⟩ := response_kept run (page.mem ho)
    obtain ⟨_, _, _, found, _⟩ := market_of_item ids owned (page.mem ho)
    have label : w'.data.db.nameOf o'.marketId = w.data.db.nameOf o.marketId := by
      rw [market, name_kept h₀ names reach run found, Database.nameOf, found, Option.map_some]
    have gone : o' ∉ items' := by
      intro there
      refine out (List.mem_map.mpr ⟨o', there, ?_⟩)
      rw [label, same]
    obtain ⟨full, before⟩ := page'.pushed ho' gone
    refine ⟨by rw [List.length_map, full, size], fun other ho₂ => ?_⟩
    obtain ⟨o₂, there, rfl⟩ := List.mem_map.mp ho₂
    exact published_ordered ((order o₂).symm.trans (before o₂ there))

theorem answered_list {α : Type} {x : Option (Except Raised α)} {f : α → List (Option Time)}
    {dates : List (Option Time)}
    (h : (x.bind Except.toOption).map f = some dates) : ∃ a, x = some (.ok a) ∧ f a = dates := by
  obtain ⟨a, answered, shown⟩ := Option.map_eq_some_iff.mp h
  obtain ⟨said, rfl, ok⟩ := Option.bind_eq_some_iff.mp answered
  cases said with
  | error e => exact nomatch ok
  | ok a' => exact ⟨a', rfl, Option.some.inj ok ▸ shown⟩

/-- A feed of one entry, before and after a newer article is stored. -/
theorem news_feed_sample : ∃ (w' : NewsWorld) (feed feed' : List NewsItemResponse),
    feed.map (·.publishedAt) = [some 10] ∧ feed'.map (·.publishedAt) = [some 20] ∧ w'.data.db.items.length = 2 ∧
    (∀ item ∈ w'.data.db.items, item.id ∉ feed'.map (·.id) →
      ∀ entry ∈ feed', publishedBefore entry.publishedAt item.publishedAt = true) ∧
    ∀ entry ∈ feed, ∀ other ∈ feed', publishedBefore other.publishedAt entry.publishedAt = true := by
  have run : ((newsSys sampleLib serviceTask).run sampleWorld (storesDated (.call 1) "a" "t" 10)).any (fun w =>
      ((newsSys sampleLib serviceTask).run w (storesDated (.call 2) "b" "another longer title" 20)).any fun w' => decide
        (((listAllNews (some 1) w.data.db w.data.db.feedRows).bind Except.toOption).map
            (fun feed => feed.map (·.publishedAt)) = some [some 10] ∧
          ((listAllNews (some 1) w'.data.db (w'.data.db.feedRows.drop 1)).bind Except.toOption).map
            (fun feed => feed.map (·.publishedAt)) = some [some 20] ∧ w'.data.db.items.length = 2)) = true := by
    decide +kernel
  obtain ⟨w, first, hp⟩ := (Option.any_eq_true _ _).mp run
  obtain ⟨w', second, hp⟩ := (Option.any_eq_true _ _).mp hp
  obtain ⟨old, new, two⟩ := of_decide_eq_true hp
  obtain ⟨feed, answer, dates⟩ := answered_list old
  obtain ⟨feed', answer', dates'⟩ := answered_list new
  have reach : Reachable (newsSys sampleLib serviceTask) sampleData w := Sys.run_steps first
  have more := Sys.run_steps second
  obtain ⟨_, _, _, ⟨_, _, _, missed⟩, _⟩ :=
    news_feed sampleLib sampleData_initial (by decide) (reach.trans more) answer'
  obtain ⟨_, _, _, _, _, _, pushed⟩ := news_feed sampleLib sampleData_initial (by decide) reach answer
  refine ⟨w', feed, feed', dates, dates', two, missed, fun entry he => (pushed w' more _ feed' answer' entry he ?_).2⟩
  intro there
  have ten : entry.publishedAt ∈ feed.map (·.publishedAt) := List.mem_map_of_mem he
  have twenty : entry.publishedAt ∈ feed'.map (·.publishedAt) := List.mem_map_of_mem there
  rw [dates] at ten
  rw [dates', List.mem_singleton.mp ten] at twenty
  exact absurd twenty (by decide)

/-- Whatever is committed between its two queries, a market's list has each of its items once, newest first, and
none of those that were there before is missing or changed. -/
theorem market_news (h₀ : d₀.Initial) (reach : Reachable (newsSys lib serviceTask) d₀ w)
    (run : Steps (newsSys lib serviceTask) w w') {marketId : String} {rows : List NewsItem}
    {list : List NewsItemResponse}
    (answer : listMarketNews marketId w.data.db w'.data.db rows = some (.ok list)) :
    ∃ market ∈ w.data.db.markets, market.externalMarketId = marketId ∧ (list.map (·.id)).Nodup ∧
      list.Perm ((w'.data.db.itemsOf market.id).map (newsItemResponse none)) ∧
      (list.Pairwise fun a b => publishedBefore a.publishedAt b.publishedAt = true) ∧
      ∀ o ∈ w.data.db.itemsOf market.id, newsItemResponse none o ∈ list := by
  unfold listMarketNews at answer
  split at answer
  next => simp at answer
  next market found =>
    split at answer
    next page =>
      obtain ⟨mem, named⟩ := KeyedRows.key_of_find found
      obtain rfl := Except.ok.inj (Option.some.inj answer)
      have page := isPage_iff.mp page
      have whole := page.whole le_rfl
      have itemIds := item_keys (reachable_inv h₀ (service_steps (reach.trans run)))
      refine ⟨market, mem, named, ?_, whole.map _, List.pairwise_map.mpr (page.pairwise.imp published_ordered),
        fun o ho => ?_⟩
      · rw [List.map_map]
        exact page.nodup (itemIds.sublist (List.filter_sublist.map _))
      · obtain ⟨stored, own⟩ := List.mem_filter.mp ho
        obtain ⟨o', ho', same, shown, _⟩ := response_kept run stored
        have inside : o' ∈ w'.data.db.itemsOf market.id := List.mem_filter.mpr ⟨ho', by simpa [same] using own⟩
        exact shown none ▸ List.mem_map_of_mem (whole.mem_iff.mpr inside)
    next => simp at answer

/-- A newer article is committed between the two queries. -/
theorem market_news_sample : ∃ (w : NewsWorld) (list : List NewsItemResponse), w.data.db.items.length = 1 ∧
    list.map (·.publishedAt) = [some 20, some 10] ∧
    (list.Pairwise fun a b => publishedBefore a.publishedAt b.publishedAt = true) ∧
    ∀ o ∈ w.data.db.itemsOf 1, newsItemResponse none o ∈ list := by
  have run : ((newsSys sampleLib serviceTask).run sampleWorld (storesDated (.call 1) "a" "t" 10)).any (fun w =>
      ((newsSys sampleLib serviceTask).run w (storesDated (.call 2) "b" "another longer title" 20)).any fun w' => decide
        (((listMarketNews "m" w.data.db w'.data.db w'.data.db.items.reverse).bind Except.toOption).map
            (fun list => list.map (·.publishedAt)) = some [some 20, some 10] ∧ w.data.db.items.length = 1 ∧
          w.data.db.markets.map (fun market => (market.id, market.externalMarketId)) = [(1, "m")])) = true := by
    decide +kernel
  obtain ⟨w, first, hp⟩ := (Option.any_eq_true _ _).mp run
  obtain ⟨w', second, hp⟩ := (Option.any_eq_true _ _).mp hp
  obtain ⟨shown, one, only⟩ := of_decide_eq_true hp
  obtain ⟨list, answer, dates⟩ := answered_list shown
  obtain ⟨market, mem, _, _, _, ordered, kept⟩ := market_news sampleData_initial (Sys.run_steps first)
    (Sys.run_steps second) answer
  have own : (market.id, market.externalMarketId) ∈ w.data.db.markets.map fun market =>
      (market.id, market.externalMarketId) :=
    List.mem_map_of_mem mem
  rw [only] at own
  obtain ⟨id, _⟩ := Prod.mk.inj (List.mem_singleton.mp own)
  exact ⟨w, list, one, dates, ordered, id ▸ kept⟩

end Runs

end NewsNotifier
