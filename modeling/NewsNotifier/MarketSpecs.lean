import NewsNotifier.CandidateSpecs
import NewsNotifier.MarketProgram
import NewsNotifier.DeliverySpecs

namespace NewsNotifier

open Interleaving

section Programs

variable {lib : PyLib} {admits : Admits} {P : Policy} {i : JobId} {l : List Write} {d : Data}
  {m : Uuid} {batchId : Option Uuid} {cfg : Settings}

theorem InMarket.rely {d' : Data} (hr : ((ledgerContract P).terms i).rely d d')
    (h : InMarket d m batchId) : InMarket d' m batchId :=
  h.frame (frame_of_rely hr)

theorem InMarket.act {a : Option JobId} {d' : Data} (ha : (ledgerContract P).act a d d')
    (h : InMarket d m batchId) : InMarket d' m batchId :=
  fun b hb => Act.hasBatch ha (h b hb)

/-- A batch stays in its market whatever a process does. -/
theorem meets_inMarket {α : Type} {p : Program α} {Q : α → List Write → Data → Prop}
    (h : Meets lib admits P i p Q l d) (batch : InMarket d m batchId) :
    Meets lib admits P i p (fun a l d => Q a l d ∧ InMarket d m batchId) l d :=
  wp_keep (fun _ _ hr _ hb => hb.rely hr) (fun _ _ _ hg hb => hb.act hg) h batch

theorem dispatchCandidate_meets (key : P.lockKey = marketLockKey) (candidate : Candidate)
    (batch : InMarket d m batchId) :
    Meets lib admits P i (dispatchCandidate m batchId candidate) (fun _ l _ => l = []) [] d := by
  refine meets_quiet rfl fun accepted d₁ d₁' hf₁ _ _ same₁ => ?_
  simp only [Prog.ret_bind, Prog.bind_eq]
  have batch₁ : InMarket d₁' m batchId := batch.frame (same₁ ▸ hf₁ : Frame P i d.ledger d₁'.ledger)
  refine wp_bind (wp_mono (meets_quiet_program
    (registerMarketJob_does (P := (·.quiet = true)) (fun _ => rfl) rfl _)) ?_ fun _ h => h)
  rintro _ _ d₂ _ ⟨rfl, hf₂⟩ _
  have batch₂ := batch₁.frame hf₂
  cases batchId with
  | none => exact meets_ret fun _ _ _ => rfl
  | some b =>
    dsimp only
    split
    next => exact meets_ret fun _ _ _ => rfl
    next =>
      refine wp_bind (wp_mono (resolveBatchCandidate_meets key .addNone (batch₂ b rfl) (by simp)
        fun _ => rfl) ?_ fun _ h => h)
      rintro logId _ d₃ _ rfl _
      exact enqueueDelivery_meets logId

theorem dispatchCycle_meets (key : P.lockKey = marketLockKey) (next : Time) (selected : List Candidate)
    (batch : InMarket d m batchId) :
    Meets lib admits P i (dispatchCycle m next batchId selected) (fun _ l _ => l = []) [] d := by
  refine meets_quiet rfl fun accepted d₁ d₁' hf₁ _ _ same₁ => ?_
  simp only [Prog.ret_bind]
  have batch₁ : InMarket d₁' m batchId := batch.frame (same₁ ▸ hf₁ : Frame P i d.ledger d₁'.ledger)
  refine wp_mono (wp_forEach (K := fun l d => l = [] ∧ InMarket d m batchId) selected ?_ ?_
    ⟨rfl, batch₁⟩) (fun _ _ _ _ h => h.1) fun _ h => h
  · rintro candidate _ l d₂ _ ⟨rfl, batch₂⟩
    exact meets_inMarket (dispatchCandidate_meets key candidate batch₂) batch₂
  · exact fun _ _ _ hr _ h => ⟨h.1, h.2.rely hr⟩

theorem meets_insertBatch {α : Type} {n : Nat} {w : Option Time} {next : Inserted → Program α}
    {Q : α → List Write → Data → Prop}
    (h : ∀ (row : NewsBatch) (new : Inserted) (d' : Data), row = ⟨new.id, m, n, 0, .opened, new.now⟩ →
      Frame P i d.ledger d'.ledger → d'.ledger.Drew i new.id → d'.ledger.tables.Unused new.id →
        Meets lib admits P i (next new) Q (l ++ [.insertBatch row]) d') :
    Meets lib admits P i (.stmt (.insertBatch m n w) next) Q l d := by
  intro d' hr hi new l' d'' hx
  change exec lib i (.insertBatch m n w) new l d' = _ at hx
  simp only [exec] at hx
  split at hx
  next fresh =>
    obtain ⟨rfl, rfl⟩ := Prod.mk.inj (Option.some.inj hx)
    have free := fresh_of_isFresh fresh
    exact ⟨.draw new.id free, h _ new _ rfl ((frame_of_rely hr).trans draw_frame)
      List.mem_cons_self (hi.unused free)⟩
  next => simp at hx

/-- The batch of a cycle is committed before its first candidate can resolve. -/
theorem openBatch_meets {α : Type} {n : Nat} {w : Option Time} {next : Inserted → Program α}
    {Q : α → List Write → Data → Prop} (effect : Effect l id) (expected : 0 < n)
    (h : ∀ (new : Inserted) (d' : Data), d'.ledger.tables.HasBatch new.id m →
      Meets lib admits P i (next new) Q [] d') :
    Meets lib admits P i (.stmt (.insertBatch m n w) fun new => .stmt .commit fun _ => next new) Q l d := by
  refine meets_insertBatch fun row new d₁ hrow hf₁ drew unused => ?_
  subst hrow
  refine meets_commit (effect.insertBatch _) fun d₂ hf₂ _ => ⟨?_, fun d₃ same _ => h new d₃ ?_⟩
  · exact .opened _ (hf₂.drew _ drew) (hf₂.tables.unused _ drew unused) rfl expected rfl
  · rw [same]
    exact ⟨_, List.mem_append_right _ (List.mem_singleton_self _), rfl, rfl⟩

theorem processMarket_meets (key : P.lockKey = marketLockKey) :
    Meets lib admits P i (processMarket lib cfg m) (fun _ l _ => Effect l id) [] d := by
  have fault : ∀ e, (ledgerContract P).fault (.py e) := by simp [ledgerContract]
  refine meets_quiet rfl fun answer d₁ d₁' hf₁ hi₁ hx₁ same₁ => ?_
  simp only [Prog.ret_bind]
  cases answer with
  | none => exact meets_ret fun _ _ _ => .nil
  | some market =>
    dsimp only
    split
    next => exact meets_ret fun _ _ _ => .nil
    next =>
      refine wp_bind (wp_mono (meets_quiet_program
        (selectCandidates_does market fault fun _ => Stmt.reading.quiet)) ?_ fun _ h => h)
      rintro selected _ d₂ _ ⟨rfl, _⟩ _
      refine meets_quiet rfl fun lastPolledAt d₃ d₃' _ _ _ _ => ?_
      simp only [Prog.ret_bind]
      refine meets_quiet rfl fun u d₄ d₄' _ _ _ _ => ?_
      simp only [Prog.ret_bind]
      refine wp_bind (wp_mono (meets_calm_program
        (assignMarket_does (P := (·.calm = true)) market rfl) .nil) ?_ fun _ h => h)
      rintro _ l₁ d₅ _ effect₁ _
      refine wp_bind (wp_mono (meets_calm_program
        (assignMarket_does (P := (·.calm = true)) market rfl) effect₁) ?_ fun _ h => h)
      rintro _ l₂ d₆ _ effect₂ _
      split
      next =>
        refine meets_commit effect₂ fun d₇ _ _ => ⟨.nothing, fun d₈ _ _ => ?_⟩
        refine wp_mono (dispatchCycle_meets key _ _ (by simp [InMarket])) ?_ fun _ h => h
        rintro _ _ _ _ rfl
        exact .nil
      next some_selected =>
        refine openBatch_meets effect₂ (List.length_pos_iff.mpr some_selected) fun new d₇ batch => ?_
        refine wp_mono (dispatchCycle_meets key _ _ ?_) ?_ fun _ h => h
        · rintro b hb
          exact Option.some.inj hb ▸ batch
        · rintro _ _ _ _ rfl
          exact .nil

end Programs

end NewsNotifier
