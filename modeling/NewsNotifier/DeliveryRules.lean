import NewsNotifier.DeliveryRefinement

namespace NewsNotifier

open Interleaving KeyedRows

theorem Ledger.Inv.keyed {d : Data} (h : d.ledger.Inv plainPolicy) : d.deliveries.rows.Keyed := by
  have listing := h.listing True.intro
  have unique : (d.db.logs.map (·.id)).Nodup := by
    have ids := h.rows.logIds
    simp only [Data.ledger, Database.tables, List.map_map] at ids
    exact ids
  refine ⟨unique, ?_, ?_, ?_, ?_⟩
  · have ids := h.rows.itemIds
    simp only [Data.ledger, Database.tables, List.map_map] at ids
    exact ids
  · exact fun log hl => (List.nodup_flatMap.mp listing.nodup).1 log.head (List.mem_map_of_mem hl)
  · intro log hl id hid
    obtain ⟨o, ho, e, _⟩ := listing.stored id (List.mem_flatMap.mpr ⟨log.head, List.mem_map_of_mem hl, hid⟩)
    obtain ⟨o', ho', rfl⟩ := List.mem_map.mp ho
    exact ⟨o', ho', e⟩
  · intro log hl log' hl' id hid hid'
    have same : log.head = log'.head := by
      by_contra ne
      exact listing.disjoint (List.mem_map_of_mem hl) (List.mem_map_of_mem hl') ne id hid hid'
    exact List.inj_on_of_nodup_map unique hl hl' (congrArg LogHead.id same)

/-- The ledger's contract together with that of the deliveries. -/
def deliveryContract (ordered : Prop) : Contract JobId Raised Data where
  inv d := d.ledger.Inv plainPolicy ∧ d.deliveries.Inv
  act a d d' := Act plainPolicy a d.ledger d'.ledger ∧ Delivers ordered a d.deliveries d'.deliveries
  fault := (ledgerContract plainPolicy).fault

/-- What a process owes the deliveries, under the whole contract's invariant and rely. -/
def deliveryTerms (ordered : Prop) (i : JobId) : Terms Data :=
  { (deliveryContract ordered).terms i with
    guar := fun d d' => Delivers ordered (some i) d.deliveries d'.deliveries }

abbrev Resumes (lib : PyLib) (allow : Allows) (ordered : Prop) (i : JobId) {α : Type}
    (p : Program α) (Q : α → List Write → Data → Prop) (l : List Write) (d : Data) : Prop :=
  wp ((newsSys lib plainTask).restrict allow) (deliveryTerms ordered i) i p Q (fun _ => True) l d

theorem undisturbed_of_rely {ordered : Prop} {i : JobId} {d d' : Data}
    (h : (deliveryTerms ordered i).rely d d') : Undisturbed ordered i d.deliveries d'.deliveries := by
  refine Contract.rely_ind (C := deliveryContract ordered)
    (R := fun d d' => Undisturbed ordered i d.deliveries d'.deliveries) (.refl _) .trans ?_ h
  rintro b c ⟨a, ne, hb, _, act⟩
  exact act.2.undisturbed hb.1.keyed.logs ne

section Rules

variable {lib : PyLib} {allow : Allows} {ordered : Prop} {i : JobId} {α : Type}
  {Q : α → List Write → Data → Prop} {l : List Write} {d : Data}

theorem resumes_ret {a : α} (h : ∀ d', Q a l d') : Resumes lib allow ordered i (.ret a) Q l d :=
  fun d' _ _ => h d'

theorem resumes_raise {e : Raised} : Resumes lib allow ordered i (.raise e : Program α) Q l d :=
  fun _ _ _ => True.intro

/-- The reads of a delivery. -/
def Stmt.looks : Stmt → Bool
  | .getLog _ | .getMarket _ | .itemsIn _ | .utcnow | .decryptSecret _ => true
  | _ => false

theorem exec_looks {s : Stmt} (hs : s.looks = true) {r : Answer s} {l l' : List Write} {d d' : Data}
    (h : exec lib i s r l d = some (l', d')) : l' = l ∧ d' = d := by
  cases s with
  | getLog | getMarket | itemsIn | utcnow => exact (answered_eq h).2
  | decryptSecret =>
    obtain ⟨rfl, rfl⟩ := Prod.mk.inj (Option.some.inj h)
    exact ⟨rfl, rfl⟩
  | _ => simp [Stmt.looks] at hs

theorem resumes_look {s : Stmt} {next : Answer s → Program α} (hs : s.looks = true)
    (h : ∀ r (d' : Data), Undisturbed ordered i d.deliveries d'.deliveries → d'.ledger.Inv plainPolicy →
      exec lib i s r l d' = some (l, d') → Resumes lib allow ordered i (next r) Q l d') :
    Resumes lib allow ordered i (.stmt s next) Q l d := by
  intro d' hr hi r l' d'' hx
  obtain ⟨_, hx⟩ := Sys.exec_of_restrict hx
  obtain ⟨rfl, rfl⟩ := exec_looks hs hx
  exact ⟨.stay _ _, h r _ (undisturbed_of_rely hr) hi.1 hx⟩

theorem resumes_assign {w : Write} {next : Unit → Program α}
    (h : ∀ d' : Data, Undisturbed ordered i d.deliveries d'.deliveries →
      Resumes lib allow ordered i (next ()) Q (l ++ [w]) d') :
    Resumes lib allow ordered i (.stmt (.assign w) next) Q l d := by
  intro d' hr hi r l' d'' hx
  obtain ⟨_, hx⟩ := Sys.exec_of_restrict hx
  obtain ⟨rfl, rfl⟩ := Prod.mk.inj (Option.some.inj hx)
  exact ⟨.stay _ _, h _ (undisturbed_of_rely hr)⟩

theorem resumes_commit {f : DeliveryRows → DeliveryRows} {next : Unit → Program α} (changes : Changes l f)
    (h : ∀ d' : Data, Undisturbed ordered i d.deliveries d'.deliveries → d'.ledger.Inv plainPolicy →
      allow i .commit () l d' = true →
      Delivers ordered (some i) d'.deliveries { d'.deliveries with rows := f d'.deliveries.rows } ∧
        ∀ d'' : Data, d''.deliveries = { d'.deliveries with rows := f d'.deliveries.rows } →
          Resumes lib allow ordered i (next ()) Q [] d'') :
    Resumes lib allow ordered i (.stmt .commit next) Q l d := by
  intro d' hr hi r l' d'' hx
  obtain ⟨ok, hx⟩ := Sys.exec_of_restrict hx
  obtain ⟨rfl, rfl⟩ := Prod.mk.inj (Option.some.inj hx)
  obtain ⟨act, rest⟩ := h d' (undisturbed_of_rely hr) hi.1 ok
  have same : ({ d' with db := d'.db.after l }.release i).deliveries =
      { d'.deliveries with rows := f d'.deliveries.rows } := by
    simp only [Data.deliveries, Data.release, changes d'.db]
  refine ⟨?_, rest _ same⟩
  change Delivers ordered (some i) d'.deliveries _
  exact same ▸ act

/-- A message goes out, and is on record with its answer. -/
theorem resumes_send {s : Stmt} {next : Answer s → Program α} (message : Answer s → Sent)
    (executes : ∀ r l d, exec lib i s r l d = some (l, { d with sent := d.sent ++ [message r] }))
    (h : ∀ r (d' : Data), Undisturbed ordered i d.deliveries d'.deliveries →
      d'.ledger.Inv plainPolicy →
      Delivers ordered (some i) d'.deliveries { d'.deliveries with sent := d'.deliveries.sent ++ [message r] } ∧
        ∀ d'' : Data, d''.deliveries = { d'.deliveries with sent := d'.deliveries.sent ++ [message r] } →
          Resumes lib allow ordered i (next r) Q l d'') :
    Resumes lib allow ordered i (.stmt s next) Q l d := by
  intro d' hr hi r l' d'' hx
  obtain ⟨_, hx⟩ := Sys.exec_of_restrict hx
  obtain ⟨rfl, rfl⟩ := Prod.mk.inj (Option.some.inj ((executes r l d').symm.trans hx))
  obtain ⟨act, rest⟩ := h r d' (undisturbed_of_rely hr) hi.1
  exact ⟨act, rest _ rfl⟩

end Rules

end NewsNotifier
