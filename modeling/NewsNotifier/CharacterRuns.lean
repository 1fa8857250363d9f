import NewsNotifier.PyValues
import Mathlib.Data.List.Infix

namespace NewsNotifier

variable {p : Char → Bool}

theorem runsOf_skip {c : Char} (h : p c = false) (cs : List Char) :
    runsOf p [] (c :: cs) = runsOf p [] cs := by
  simp [runsOf, h]

theorem runsOf_run {w : List Char} (hw : ∀ c ∈ w, p c = true) (run rest : List Char) :
    runsOf p run (w ++ rest) = runsOf p (run ++ w) rest := by
  induction w generalizing run with
  | nil => simp
  | cons c w ih =>
    have hc : p c = true := hw c (by simp)
    have later := ih (fun d hd => hw d (by simp [hd])) (run ++ [c])
    simpa [runsOf, hc] using later

theorem runsOf_closed {run rest : List Char} (hr : run ≠ [])
    (stops : ∀ c ∈ rest.head?, p c = false) : runsOf p run rest = run :: runsOf p [] rest := by
  cases rest with
  | nil => simp [runsOf, hr]
  | cons c rest =>
    have hc : p c = false := stops c rfl
    simp [runsOf, hc, hr]

theorem runsOf_single {c : Char} {cs : List Char} (hc : p c = true)
    (stops : ∀ d ∈ cs.head?, p d = false) : runsOf p [] (c :: cs) = [c] :: runsOf p [] cs := by
  have opened : runsOf p [] (c :: cs) = runsOf p [c] cs := by simp [runsOf, hc]
  rw [opened, runsOf_closed (by simp) stops]

theorem runsOf_grows (c : Char) {run : List Char} (hr : run ≠ []) (cs : List Char) :
    ∃ w ws, runsOf p run cs = w :: ws ∧ runsOf p (c :: run) cs = (c :: w) :: ws := by
  induction cs generalizing run with
  | nil => exact ⟨run, [], by simp [runsOf, hr], by simp [runsOf]⟩
  | cons d cs ih =>
    by_cases hd : p d = true
    · obtain ⟨w, ws, short, long⟩ := @ih (run ++ [d]) (by simp)
      exact ⟨w, ws, by simpa [runsOf, hd] using short, by simpa [runsOf, hd] using long⟩
    · exact ⟨run, runsOf p [] cs, by simp [runsOf, hd, hr], by simp [runsOf, hd]⟩

theorem runsOf_extend {c d : Char} (hc : p c = true) (hd : p d = true) (cs : List Char) :
    ∃ w ws, runsOf p [] (d :: cs) = w :: ws ∧ runsOf p [] (c :: d :: cs) = (c :: w) :: ws := by
  obtain ⟨w, ws, short, long⟩ := @runsOf_grows p c [d] (by simp) cs
  exact ⟨w, ws, by simpa [runsOf, hd] using short, by simpa [runsOf, hc, hd] using long⟩

theorem runsOf_opens (cs : List Char) {run : List Char} (hr : run ≠ []) :
    ∃ w ws, runsOf p run cs = (run ++ w) :: ws := by
  induction cs generalizing run with
  | nil => exact ⟨[], [], by simp [runsOf, hr]⟩
  | cons d cs ih =>
    by_cases hd : p d = true
    · obtain ⟨w, ws, opened⟩ := @ih (run ++ [d]) (by simp)
      exact ⟨d :: w, ws, by simpa [runsOf, hd] using opened⟩
    · exact ⟨[], runsOf p [] cs, by simp [runsOf, hd, hr]⟩

/-- The text reads as these words, with characters outside `p` around them and between them. -/
inductive Spells (p : Char → Bool) : List (List Char) → List Char → Prop
  | blank {gap : List Char} (outside : ∀ c ∈ gap, p c = false) : Spells p [] gap
  | word {gap w rest : List Char} {ws : List (List Char)} (outside : ∀ c ∈ gap, p c = false)
      (nonempty : w ≠ []) (inside : ∀ c ∈ w, p c = true) (stops : ∀ c ∈ rest.head?, p c = false)
      (later : Spells p ws rest) : Spells p (w :: ws) (gap ++ (w ++ rest))

theorem runsOf_gap {gap : List Char} (outside : ∀ c ∈ gap, p c = false) (rest : List Char) :
    runsOf p [] (gap ++ rest) = runsOf p [] rest := by
  induction gap with
  | nil => rfl
  | cons c gap ih =>
    have later := ih fun d hd => outside d (by simp [hd])
    rw [List.cons_append, runsOf_skip (outside c (by simp)), later]

theorem Spells.runs {ws : List (List Char)} {text : List Char} (h : Spells p ws text) :
    runsOf p [] text = ws := by
  induction h with
  | @blank gap outside => simpa [runsOf] using runsOf_gap outside []
  | @word gap w rest ws outside nonempty inside stops later ih =>
    rw [runsOf_gap outside, runsOf_run inside, List.nil_append, runsOf_closed nonempty stops, ih]

theorem Spells.skip {c : Char} {ws : List (List Char)} {text : List Char} (hc : p c = false)
    (h : Spells p ws text) : Spells p ws (c :: text) := by
  have widened {gap : List Char} (outside : ∀ d ∈ gap, p d = false) : ∀ d ∈ c :: gap, p d = false := by
    intro d hd
    rcases List.mem_cons.mp hd with rfl | hd
    · exact hc
    · exact outside d hd
  cases h with
  | blank outside => exact .blank (widened outside)
  | word outside nonempty inside stops later =>
    exact .word (widened outside) nonempty inside stops later

theorem spells_runs (p : Char → Bool) (text : List Char) : Spells p (runsOf p [] text) text := by
  induction text with
  | nil => exact .blank (by simp)
  | cons c text ih =>
    by_cases hc : p c = true
    · by_cases stops : ∀ d ∈ text.head?, p d = false
      · rw [runsOf_single hc stops]
        exact @Spells.word p [] [c] _ _ (by simp) (by simp) (by simpa using hc) stops ih
      · cases text with
        | nil => simp at stops
        | cons d text =>
          have hd : p d = true := by simpa using stops
          obtain ⟨w, ws, short, long⟩ := runsOf_extend hc hd text
          rw [short] at ih
          rw [long]
          generalize ht : d :: text = whole at ih
          cases ih with
          | @word gap w rest ws outside nonempty inside stops later =>
            cases gap with
            | nil =>
              have inside' : ∀ e ∈ c :: w, p e = true := by simpa [hc] using inside
              exact @Spells.word p [] _ _ _ (by simp) (by simp) inside' stops later
            | cons e gap =>
              have he := outside e (by simp)
              have : d = e := by simpa using congrArg List.head? ht
              simp [← this, hd] at he
    · have hc' : p c = false := by simpa using hc
      rw [runsOf_skip hc']
      exact ih.skip hc'

theorem spells_iff {ws : List (List Char)} {text : List Char} :
    Spells p ws text ↔ runsOf p [] text = ws :=
  ⟨Spells.runs, fun h => h ▸ spells_runs p text⟩

theorem runsOf_trailing {gap : List Char} (outside : ∀ c ∈ gap, p c = false) (run text : List Char) :
    runsOf p run (text ++ gap) = runsOf p run text := by
  induction text generalizing run with
  | nil =>
    cases gap with
    | nil => rfl
    | cons c gap =>
      have hc := outside c (by simp)
      have later : ∀ d ∈ gap, p d = false := fun d hd => outside d (List.mem_cons_of_mem c hd)
      have blank : runsOf p [] gap = [] := (Spells.blank later).runs
      simp [runsOf, hc, blank]
  | cons c text ih =>
    simp only [List.cons_append, runsOf, ih]

theorem runsOf_break {gap : List Char} (nonempty : gap ≠ []) (outside : ∀ c ∈ gap, p c = false)
    (run rest : List Char) :
    runsOf p run (gap ++ rest) = if run = [] then runsOf p [] rest else run :: runsOf p [] rest := by
  by_cases fresh : run = []
  · rw [if_pos fresh, fresh, runsOf_gap outside]
  · have stops : ∀ c ∈ (gap ++ rest).head?, p c = false := by
      cases gap with
      | nil => exact absurd rfl nonempty
      | cons c gap => simpa using outside c (by simp)
    rw [if_neg fresh, runsOf_closed fresh stops, runsOf_gap outside]

/-- Two texts that differ in the runs of blank characters between the others; a run stays
nonempty. -/
inductive Respaced (blank : Char → Bool) : List Char → List Char → Prop
  | done : Respaced blank [] []
  | keep {c : Char} {s t : List Char} (solid : blank c = false) (later : Respaced blank s t) :
      Respaced blank (c :: s) (c :: t)
  | run {a b s t : List Char} (left : a ≠ []) (leftBlank : ∀ c ∈ a, blank c = true)
      (right : b ≠ []) (rightBlank : ∀ c ∈ b, blank c = true) (later : Respaced blank s t) :
      Respaced blank (a ++ s) (b ++ t)

theorem Respaced.runs {blank : Char → Bool} {s t : List Char} (h : Respaced blank s t)
    (run : List Char) : runsOf (fun c => !blank c) run s = runsOf (fun c => !blank c) run t := by
  induction h generalizing run with
  | done => rfl
  | keep solid later ih => simp only [runsOf, solid, Bool.not_false, if_true, ih]
  | run left leftBlank right rightBlank later ih =>
    have outsideLeft := fun c hc => congrArg (! ·) (leftBlank c hc)
    have outsideRight := fun c hc => congrArg (! ·) (rightBlank c hc)
    rw [runsOf_break left outsideLeft, runsOf_break right outsideRight, ih]

/-- The words of the text, with one blank between two. -/
def spaced (p : Char → Bool) (text : List Char) : List Char := [' '].intercalate (runsOf p [] text)

theorem intercalate_blank (w : List Char) (ws : List (List Char)) :
    [' '].intercalate (w :: ws) = w ++ if ws = [] then [] else ' ' :: [' '].intercalate ws := by
  cases ws with
  | nil => simp
  | cons v ws => simp [List.intercalate_cons_cons]

theorem spaced_suffix_cons (c : Char) (text : List Char) : spaced p text <:+ spaced p (c :: text) := by
  unfold spaced
  by_cases hc : p c = true
  · by_cases stops : ∀ d ∈ text.head?, p d = false
    · rw [runsOf_single hc stops, intercalate_blank]
      split
      next none =>
        rw [none]
        exact List.nil_suffix
      next => exact ⟨[c, ' '], by simp⟩
    · cases text with
      | nil => simp at stops
      | cons d text =>
        have hd : p d = true := by simpa using stops
        obtain ⟨w, ws, short, long⟩ := runsOf_extend hc hd text
        rw [short, long, intercalate_blank, intercalate_blank]
        exact ⟨[c], by simp⟩
  · rw [runsOf_skip (by simpa using hc)]

theorem spaced_suffix (front text : List Char) : spaced p text <:+ spaced p (front ++ text) := by
  induction front with
  | nil => exact List.suffix_rfl
  | cons c front ih => exact ih.trans (spaced_suffix_cons c (front ++ text))

theorem spaced_eq_nil {text : List Char} (h : spaced p text = []) : runsOf p [] text = [] := by
  have spelled := spells_runs p text
  unfold spaced at h
  generalize runsOf p [] text = words at h spelled
  cases spelled with
  | blank => rfl
  | word outside nonempty =>
    rw [intercalate_blank] at h
    exact absurd (List.append_eq_nil_iff.mp h).1 nonempty

theorem spaced_prefix (text back : List Char) : spaced p text <+: spaced p (text ++ back) := by
  induction text with
  | nil => exact List.nil_prefix
  | cons c text ih =>
    unfold spaced at ih ⊢
    by_cases hc : p c = true
    · by_cases stops : ∀ d ∈ text.head?, p d = false
      · cases text with
        | nil =>
          obtain ⟨w, ws, opened⟩ := @runsOf_opens p back [c] (by simp)
          have whole : runsOf p [] (c :: back) = (c :: w) :: ws := by simpa [runsOf, hc] using opened
          have alone : runsOf p [] [c] = [[c]] := by simp [runsOf, hc]
          rw [List.cons_append, List.nil_append, alone, whole, intercalate_blank, intercalate_blank]
          simp
        | cons d text =>
          have stops' : ∀ e ∈ (d :: (text ++ back)).head?, p e = false := by simpa using stops
          rw [List.cons_append] at ih
          rw [List.cons_append, List.cons_append, runsOf_single hc stops, runsOf_single hc stops',
            intercalate_blank, intercalate_blank]
          by_cases short : runsOf p [] (d :: text) = []
          · simp [short]
          · have long : runsOf p [] (d :: (text ++ back)) ≠ [] := by
              intro none
              rw [none] at ih
              exact short (spaced_eq_nil (List.prefix_nil.mp ih))
            rw [if_neg short, if_neg long]
            simpa using ih
      · cases text with
        | nil => simp at stops
        | cons d text =>
          have hd : p d = true := by simpa using stops
          obtain ⟨w, ws, short, long⟩ := runsOf_extend hc hd text
          obtain ⟨w', ws', short', long'⟩ := runsOf_extend hc hd (text ++ back)
          rw [List.cons_append, short, short', intercalate_blank, intercalate_blank] at ih
          rw [List.cons_append, List.cons_append, long, long', intercalate_blank, intercalate_blank]
          exact List.cons_prefix_cons.mpr ⟨rfl, ih⟩
    · have hc' : p c = false := by simpa using hc
      rw [List.cons_append, runsOf_skip hc', runsOf_skip hc']
      exact ih

theorem spaced_occurs {s text : List Char} (h : s <:+: text) : spaced p s <:+: spaced p text := by
  obtain ⟨front, back, rfl⟩ := h
  have left := spaced_suffix (p := p) front s
  have right := spaced_prefix (p := p) (front ++ s) back
  exact left.isInfix.trans right.isInfix

end NewsNotifier
