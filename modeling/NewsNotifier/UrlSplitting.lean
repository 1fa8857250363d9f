import NewsNotifier.QueryStrings
import Mathlib.Data.List.DropRight

namespace UrlText

open QueryStrings

structure Parts where
  scheme : List Char
  netloc : List Char
  path : List Char
  query : List Char
  fragment : List Char
  deriving DecidableEq

/-- A C0 control or a space: stripped from the left of a URL. -/
def leading (c : Char) : Bool := c.toNat ≤ 0x20

def removed (c : Char) : Bool := c == '\t' || c == '\r' || c == '\n'

def schemeChar (c : Char) : Bool := c.isAlphanum || c == '+' || c == '-' || c == '.'

def netlocChar (c : Char) : Bool := c != '/' && c != '?' && c != '#'

def clean (url : List Char) : List Char := (url.dropWhile leading).filter fun c => !removed c

def isScheme (name : List Char) : Bool := name.head?.any Char.isAlpha && name.all schemeChar

def cutScheme (url : List Char) : List Char × List Char :=
  match splitFirst ':' url with
  | (name, some rest) => if isScheme name then (name.map Char.toLower, rest) else ([], url)
  | (_, none) => ([], url)

def cutNetloc : List Char → List Char × List Char
  | '/' :: '/' :: url => (url.takeWhile netlocChar, url.dropWhile netlocChar)
  | url => ([], url)

/-- `urlsplit`, but for the checks of the netloc. -/
def splitUrl (url : List Char) : Parts :=
  let (scheme, url) := cutScheme (clean url)
  let (netloc, url) := cutNetloc url
  let (url, fragment) := splitFirst '#' url
  let (path, query) := splitFirst '?' url
  ⟨scheme, netloc, path, query.getD [], fragment.getD []⟩

def usesNetloc : List String :=
  ["", "ftp", "http", "gopher", "nntp", "telnet", "imap", "wais", "file", "mms", "https", "shttp",
   "snews", "prospero", "rtsp", "rtsps", "rtspu", "rsync", "svn", "svn+ssh", "sftp", "nfs", "git",
   "git+ssh", "ws", "wss", "itms-services"]

def joinNetloc (p : Parts) : List Char :=
  if p.netloc ≠ [] then
    '/' :: '/' :: p.netloc ++ (if p.path ≠ [] ∧ p.path.head? ≠ some '/' then '/' :: p.path else p.path)
  else if p.path.take 2 = ['/', '/'] then '/' :: '/' :: p.path
  else if p.scheme ≠ [] ∧ String.ofList p.scheme ∈ usesNetloc ∧ (p.path = [] ∨ p.path.head? = some '/') then
    '/' :: '/' :: p.path
  else p.path

/-- `urlunsplit`. -/
def unsplitUrl (p : Parts) : List Char :=
  let url := if p.scheme = [] then joinNetloc p else p.scheme ++ ':' :: joinNetloc p
  let url := if p.query = [] then url else url ++ '?' :: p.query
  if p.fragment = [] then url else url ++ '#' :: p.fragment

/-- `str.rstrip("/")`. -/
def rstripSlash (cs : List Char) : List Char := cs.rdropWhile (· == '/')

/-- The parts of a URL with a scheme and an authority. -/
structure Parts.Absolute (p : Parts) : Prop where
  scheme : isScheme p.scheme = true
  lower : p.scheme.map Char.toLower = p.scheme
  authority : p.netloc ≠ []
  netloc : ∀ c ∈ p.netloc, netlocChar c = true
  rooted : p.path = [] ∨ p.path.head? = some '/'
  path : ∀ c ∈ p.path, c ≠ '?' ∧ c ≠ '#'
  query : '#' ∉ p.query
  kept : ∀ c ∈ p.netloc ++ p.path ++ p.query ++ p.fragment, removed c = false

/-- What follows the authority. -/
def Parts.tail (p : Parts) : List Char :=
  p.path ++ ((if p.query = [] then [] else '?' :: p.query) ++ if p.fragment = [] then [] else '#' :: p.fragment)

theorem schemeChar_bounds {c : Char} (h : schemeChar c = true) :
    c ≠ ':' ∧ leading c = false ∧ removed c = false := by
  have code : c.val.toNat = c.toNat := rfl
  simp only [schemeChar, Char.isAlphanum, Char.isAlpha, Char.isUpper, Char.isLower, Char.isDigit,
    Bool.or_eq_true, Bool.and_eq_true, decide_eq_true_eq, beq_iff_eq, ge_iff_le,
    UInt32.le_iff_toNat_le, code] at h
  have apart : ∀ d : Char, c.toNat ≠ d.toNat → c ≠ d := fun d ne e => ne (e ▸ rfl)
  rcases h with ((((h | h) | h) | rfl) | rfl) | rfl
  all_goals first
    | decide
    | simp only [leading, removed, Bool.or_eq_false_iff, beq_eq_false_iff_ne, decide_eq_false_iff_not]
      refine ⟨apart _ ?_, ?_, ⟨apart _ ?_, apart _ ?_⟩, apart _ ?_⟩ <;> simp at h ⊢ <;> omega

theorem schemeChar_ascii {c : Char} (h : schemeChar c = true) : c.toNat < 128 := by
  have code : c.val.toNat = c.toNat := rfl
  simp only [schemeChar, Char.isAlphanum, Char.isAlpha, Char.isUpper, Char.isLower, Char.isDigit,
    Bool.or_eq_true, Bool.and_eq_true, decide_eq_true_eq, beq_iff_eq, ge_iff_le,
    UInt32.le_iff_toNat_le, code] at h
  rcases h with ((((h | h) | h) | rfl) | rfl) | rfl
  all_goals first
    | decide
    | simp at h; omega

theorem isScheme_ne_nil {name : List Char} (h : isScheme name = true) : name ≠ [] := by
  rintro rfl
  simp [isScheme] at h

theorem isScheme_chars {name : List Char} (h : isScheme name = true) {c : Char} (hc : c ∈ name) :
    schemeChar c = true := by
  simp only [isScheme, Bool.and_eq_true, List.all_eq_true] at h
  exact h.2 c hc

namespace Parts.Absolute

variable {p : Parts}

theorem unsplit_eq (h : p.Absolute) :
    unsplitUrl p = p.scheme ++ ':' :: '/' :: '/' :: (p.netloc ++ p.tail) := by
  have named := isScheme_ne_nil h.scheme
  have joined : joinNetloc p = '/' :: '/' :: p.netloc ++ p.path := by
    have slash : ¬(p.path ≠ [] ∧ p.path.head? ≠ some '/') := by
      rintro ⟨nonempty, other⟩
      exact h.rooted.elim nonempty other
    rw [joinNetloc, if_pos h.authority, if_neg slash]
  simp only [unsplitUrl, if_neg named, joined, Parts.tail]
  by_cases query : p.query = [] <;> by_cases fragment : p.fragment = [] <;> simp [query, fragment]

theorem unsplit_kept (h : p.Absolute) {c : Char} (hc : c ∈ unsplitUrl p) : removed c = false := by
  have kept := h.kept
  rw [h.unsplit_eq] at hc
  simp only [List.mem_append, List.mem_cons, Parts.tail] at hc kept
  rcases hc with hc | rfl | rfl | rfl | hc | hc | hc | hc
  · exact (schemeChar_bounds (isScheme_chars h.scheme hc)).2.2
  · decide
  · decide
  · decide
  · exact kept c (by simp [hc])
  · exact kept c (by simp [hc])
  · split at hc
    next => simp at hc
    next =>
      rcases List.mem_cons.mp hc with rfl | hc
      · decide
      · exact kept c (by simp [hc])
  · split at hc
    next => simp at hc
    next =>
      rcases List.mem_cons.mp hc with rfl | hc
      · decide
      · exact kept c (by simp [hc])

theorem clean_unsplit (h : p.Absolute) : clean (unsplitUrl p) = unsplitUrl p := by
  have all : (unsplitUrl p).filter (fun c => !removed c) = unsplitUrl p :=
    List.filter_eq_self.mpr fun c hc => by simp [h.unsplit_kept hc]
  have first : (unsplitUrl p).dropWhile leading = unsplitUrl p := by
    rw [h.unsplit_eq]
    cases hs : p.scheme with
    | nil => exact absurd hs (isScheme_ne_nil h.scheme)
    | cons c cs =>
      have letter := (schemeChar_bounds (isScheme_chars h.scheme (hs ▸ List.mem_cons_self))).2.1
      rw [List.cons_append, List.dropWhile_cons_of_neg (by simp [letter])]
  rw [clean, first, all]

theorem tail_delimited (h : p.Absolute) : p.tail.takeWhile netlocChar = [] := by
  unfold Parts.tail
  rcases h.rooted with empty | slash
  · rw [empty]
    by_cases query : p.query = [] <;> by_cases fragment : p.fragment = [] <;>
      simp [query, fragment, netlocChar]
  · cases hp : p.path with
    | nil => simp [hp] at slash
    | cons c cs =>
      obtain rfl : c = '/' := by simpa [hp] using slash
      simp [netlocChar]

theorem cutNetloc_unsplit (h : p.Absolute) :
    cutNetloc ('/' :: '/' :: (p.netloc ++ p.tail)) = (p.netloc, p.tail) := by
  have taken : (p.netloc ++ p.tail).takeWhile netlocChar = p.netloc := by
    rw [List.takeWhile_append_of_pos h.netloc, h.tail_delimited, List.append_nil]
  have dropped : (p.netloc ++ p.tail).dropWhile netlocChar = p.tail := by
    rw [List.dropWhile_append_of_pos h.netloc]
    have whole := List.takeWhile_append_dropWhile (p := netlocChar) (l := p.tail)
    rwa [h.tail_delimited, List.nil_append] at whole
  rw [cutNetloc, taken, dropped]

theorem cutScheme_unsplit (h : p.Absolute) : cutScheme (unsplitUrl p) =
    (p.scheme, '/' :: '/' :: (p.netloc ++ p.tail)) := by
  have colon : ':' ∉ p.scheme := fun hc => (schemeChar_bounds (isScheme_chars h.scheme hc)).1 rfl
  rw [h.unsplit_eq, cutScheme, splitFirst_append colon]
  simp only [h.scheme, if_true, h.lower]

/-- An absolute URL is split as it was joined. -/
theorem split_unsplit (h : p.Absolute) : splitUrl (unsplitUrl p) = p := by
  have noHash : '#' ∉ p.path ++ if p.query = [] then [] else '?' :: p.query := by
    simp only [List.mem_append, not_or]
    refine ⟨fun hc => (h.path _ hc).2 rfl, ?_⟩
    split
    next => exact List.not_mem_nil
    next => simpa using h.query
  have noMark : '?' ∉ p.path := fun hc => (h.path _ hc).1 rfl
  have fragment : splitFirst '#' p.tail = (p.path ++ if p.query = [] then [] else '?' :: p.query,
      if p.fragment = [] then none else some p.fragment) := by
    rw [Parts.tail, ← List.append_assoc]
    by_cases none_ : p.fragment = []
    · rw [if_pos none_, if_pos none_, List.append_nil, splitFirst_absent noHash]
    · rw [if_neg none_, if_neg none_, splitFirst_append noHash]
  have query : splitFirst '?' (p.path ++ if p.query = [] then [] else '?' :: p.query) =
      (p.path, if p.query = [] then none else some p.query) := by
    by_cases none_ : p.query = []
    · rw [if_pos none_, if_pos none_, List.append_nil, splitFirst_absent noMark]
    · rw [if_neg none_, if_neg none_, splitFirst_append noMark]
  simp only [splitUrl, h.clean_unsplit, h.cutScheme_unsplit, h.cutNetloc_unsplit, fragment, query]
  by_cases none_ : p.query = [] <;> by_cases none' : p.fragment = [] <;> simp [none_, none'] <;>
    cases p <;> simp_all

end Parts.Absolute

theorem clean_kept {url : List Char} {c : Char} (h : c ∈ clean url) : removed c = false := by
  simpa using (List.mem_filter.mp h).2

theorem splitFirst_mem {c x : Char} {xs : List Char} :
    (x ∈ (splitFirst c xs).1 → x ∈ xs) ∧ (x ∈ (splitFirst c xs).2.getD [] → x ∈ xs) := by
  induction xs with
  | nil => simp [splitFirst]
  | cons y ys ih =>
    rw [splitFirst]
    split
    next => exact ⟨fun h => absurd h List.not_mem_nil, List.mem_cons_of_mem y⟩
    next =>
      refine ⟨fun h => ?_, fun h => List.mem_cons_of_mem y (ih.2 h)⟩
      rcases List.mem_cons.mp h with rfl | h
      · exact List.mem_cons_self
      · exact List.mem_cons_of_mem y (ih.1 h)

theorem toLower_schemeChar {c : Char} (h : schemeChar c = true) :
    schemeChar c.toLower = true ∧ c.toLower.toLower = c.toLower ∧ (c.isAlpha = true → c.toLower.isAlpha = true) := by
  have small : ∀ n, n < 128 → schemeChar (Char.ofNat n) = true → schemeChar (Char.ofNat n).toLower = true ∧
      (Char.ofNat n).toLower.toLower = (Char.ofNat n).toLower ∧
      ((Char.ofNat n).isAlpha = true → (Char.ofNat n).toLower.isAlpha = true) := by
    decide +kernel
  have found := small c.toNat (schemeChar_ascii h)
  rw [Char.ofNat_toNat] at found
  exact found h

theorem toLower_scheme {name : List Char} (h : isScheme name = true) :
    isScheme (name.map Char.toLower) = true ∧
      (name.map Char.toLower).map Char.toLower = name.map Char.toLower := by
  have each := fun c hc => toLower_schemeChar (isScheme_chars h (c := c) hc)
  constructor
  · cases name with
    | nil => simp [isScheme] at h
    | cons c cs =>
      simp only [isScheme, List.head?_cons, Option.any_some, Bool.and_eq_true, List.all_eq_true,
        List.map_cons, List.mem_cons, List.mem_map] at h ⊢
      refine ⟨(each c List.mem_cons_self).2.2 h.1, ?_⟩
      rintro x (rfl | ⟨y, hy, rfl⟩)
      · exact (each c List.mem_cons_self).1
      · exact (each y (List.mem_cons_of_mem c hy)).1
  · rw [List.map_map]
    exact List.map_congr_left fun c hc => (each c hc).2.1

theorem cutScheme_cases (url : List Char) : (cutScheme url).1 = [] ∨
    (isScheme (cutScheme url).1 = true ∧ (cutScheme url).1.map Char.toLower = (cutScheme url).1 ∧
      ∀ c ∈ (cutScheme url).2, c ∈ url) := by
  unfold cutScheme
  have rest := fun c => (@splitFirst_mem ':' c url).2
  cases cut : splitFirst ':' url with
  | mk name value =>
    rw [cut] at rest
    cases value with
    | none => exact .inl rfl
    | some value =>
      by_cases scheme : isScheme name = true
      · obtain ⟨lowered, idem⟩ := toLower_scheme scheme
        simp only [scheme, if_true]
        exact .inr ⟨lowered, idem, rest⟩
      · simp [scheme]

theorem cutNetloc_cases (url : List Char) : (cutNetloc url).1 = [] ∨
    (((cutNetloc url).2 = [] ∨ ∃ c cs, (cutNetloc url).2 = c :: cs ∧ netlocChar c = false) ∧
      (∀ c ∈ (cutNetloc url).1, netlocChar c = true ∧ c ∈ url) ∧ ∀ c ∈ (cutNetloc url).2, c ∈ url) := by
  unfold cutNetloc
  split
  next rest =>
    right
    refine ⟨?_, fun c hc => ⟨List.mem_takeWhile_imp hc, ?_⟩, fun c hc => ?_⟩
    · cases hd : rest.dropWhile netlocChar with
      | nil => exact .inl rfl
      | cons c cs =>
        have head := List.head_dropWhile_not netlocChar (l := rest) (by simp [hd])
        exact .inr ⟨c, cs, rfl, by simpa [hd] using head⟩
    · exact List.mem_cons_of_mem _ (List.mem_cons_of_mem _ ((List.takeWhile_prefix netlocChar).subset hc))
    · exact List.mem_cons_of_mem _ (List.mem_cons_of_mem _ ((List.dropWhile_suffix netlocChar).subset hc))
  next => exact .inl rfl

theorem splitFirst_rooted {url : List Char}
    (h : url = [] ∨ ∃ c cs, url = c :: cs ∧ netlocChar c = false) :
    (splitFirst '?' (splitFirst '#' url).1).1 = [] ∨
      (splitFirst '?' (splitFirst '#' url).1).1.head? = some '/' := by
  rcases h with rfl | ⟨c, cs, rfl, stop⟩
  · exact .inl rfl
  · simp only [netlocChar, Bool.and_eq_false_iff, bne_eq_false_iff_eq] at stop
    rcases stop with (rfl | rfl) | rfl <;> simp [splitFirst]

/-- A URL that is split into a scheme and an authority is absolute. -/
theorem splitUrl_absolute {url : List Char} (scheme : (splitUrl url).scheme ≠ [])
    (authority : (splitUrl url).netloc ≠ []) : (splitUrl url).Absolute := by
  obtain ⟨named, lower, rest⟩ := (cutScheme_cases (clean url)).resolve_left scheme
  obtain ⟨stop, netloc, tail⟩ := (cutNetloc_cases (cutScheme (clean url)).2).resolve_left authority
  have unfragmented := fun x => @splitFirst_mem '#' x (cutNetloc (cutScheme (clean url)).2).2
  have asked := fun x => @splitFirst_mem '?' x (splitFirst '#' (cutNetloc (cutScheme (clean url)).2).2).1
  have noHash := splitFirst_fst_absent '#' (cutNetloc (cutScheme (clean url)).2).2
  refine ⟨named, lower, authority, fun c hc => (netloc c hc).1, splitFirst_rooted stop, ?_, ?_, ?_⟩
  · exact fun c hc => ⟨fun e => splitFirst_fst_absent '?' _ (e ▸ hc), fun e => noHash (e ▸ (asked c).1 hc)⟩
  · exact fun hc => noHash ((asked '#').2 hc)
  · intro c hc
    simp only [List.mem_append] at hc
    have inner : ∀ x ∈ (cutNetloc (cutScheme (clean url)).2).2, removed x = false :=
      fun x hx => clean_kept (rest x (tail x hx))
    rcases hc with ((hc | hc) | hc) | hc
    · exact clean_kept (rest c (netloc c hc).2)
    · exact inner c ((unfragmented c).1 ((asked c).1 hc))
    · exact inner c ((unfragmented c).1 ((asked c).2 hc))
    · exact inner c ((unfragmented c).2 hc)

theorem rstripSlash_append {xs : List Char} (nonempty : xs ≠ []) (last : xs.getLast nonempty ≠ '/')
    (ys : List Char) : rstripSlash (xs ++ ys) = xs ++ rstripSlash ys := by
  unfold rstripSlash
  induction ys using List.reverseRecOn with
  | nil =>
    have kept : xs.rdropWhile (· == '/') = xs := List.rdropWhile_eq_self_iff.mpr fun _ => by simpa using last
    simpa using kept
  | append_singleton ys y ih =>
    rw [← List.append_assoc]
    by_cases slash : y = '/'
    · rw [List.rdropWhile_concat_pos _ _ _ (by simpa using slash), ih,
        List.rdropWhile_concat_pos _ _ _ (by simpa using slash)]
    · rw [List.rdropWhile_concat_neg _ _ _ (by simpa using slash),
        List.rdropWhile_concat_neg _ _ _ (by simpa using slash), List.append_assoc]

theorem rstripSlash_slashes (xs : List Char) (n : Nat) :
    rstripSlash (xs ++ List.replicate n '/') = rstripSlash xs := by
  induction n with
  | zero => simp
  | succ n ih =>
    rw [List.replicate_succ', ← List.append_assoc, rstripSlash, List.rdropWhile_concat_pos _ _ _ rfl]
    exact ih

/-- The slashes at the end of a URL belong to its path, if nothing follows it. -/
def Parts.trim (p : Parts) : Parts := if p.query = [] then { p with path := rstripSlash p.path } else p

namespace Parts.Absolute

variable {p : Parts}

theorem trim (h : p.Absolute) : p.trim.Absolute := by
  unfold Parts.trim
  split
  next =>
    have sub : ∀ {c}, c ∈ rstripSlash p.path → c ∈ p.path := fun hc =>
      (List.rdropWhile_prefix (· == '/') p.path).subset hc
    refine ⟨h.scheme, h.lower, h.authority, h.netloc, ?_, fun c hc => h.path c (sub hc), h.query, ?_⟩
    · rcases h.rooted with empty | slash
      · exact .inl (by simp [empty, rstripSlash])
      · obtain ⟨rest, eq⟩ := List.rdropWhile_prefix (· == '/') p.path
        cases hr : rstripSlash p.path with
        | nil => exact .inl rfl
        | cons c cs =>
          right
          have whole : (c :: cs) ++ rest = p.path := by
            rw [← hr]
            exact eq
          rw [← whole] at slash
          simpa using slash
    · intro c hc
      have kept := h.kept
      simp only [List.mem_append] at hc kept
      rcases hc with ((hc | hc) | hc) | hc
      · exact kept c (by simp [hc])
      · exact kept c (by simp [sub hc])
      · exact kept c (by simp [hc])
      · exact kept c (by simp [hc])
  next => exact h

/-- Stripping the joined URL strips its path, or nothing when a query follows. -/
theorem rstripSlash_unsplit (h : p.Absolute) (fragment : p.fragment = []) (query : ∀ c ∈ p.query, c ≠ '/') :
    rstripSlash (unsplitUrl p) = unsplitUrl p.trim := by
  have ends : ∀ (hn : p.netloc ≠ []), p.netloc.getLast hn ≠ '/' := by
    intro hn e
    have slash := h.netloc _ (List.getLast_mem hn)
    rw [e] at slash
    simp [netlocChar] at slash
  rw [h.unsplit_eq, h.trim.unsplit_eq]
  by_cases none_ : p.query = []
  · have tail : p.tail = p.path := by simp [Parts.tail, none_, fragment]
    have tail' : p.trim.tail = rstripSlash p.path := by simp [Parts.trim, Parts.tail, none_, fragment]
    have front : p.scheme ++ ':' :: '/' :: '/' :: (p.netloc ++ p.path) =
        (p.scheme ++ ':' :: '/' :: '/' :: p.netloc) ++ p.path := by simp
    have last : (p.scheme ++ ':' :: '/' :: '/' :: p.netloc).getLast (by simp) ≠ '/' := by
      simpa [List.getLast_append, List.getLast_cons, h.authority] using ends h.authority
    rw [tail, tail', front, rstripSlash_append (by simp) last]
    simp [Parts.trim, none_]
  · have same : p.trim = p := by simp [Parts.trim, none_]
    rw [same]
    refine List.rdropWhile_eq_self_iff.mpr fun nonempty => ?_
    have tail : p.scheme ++ ':' :: '/' :: '/' :: (p.netloc ++ p.tail) =
        (p.scheme ++ ':' :: '/' :: '/' :: (p.netloc ++ (p.path ++ ['?']))) ++ p.query := by
      simp [Parts.tail, none_, fragment]
    have last := query _ (List.getLast_mem none_)
    have same : ∀ h, (p.scheme ++ ':' :: '/' :: '/' :: (p.netloc ++ p.tail)).getLast h = p.query.getLast none_ := by
      rw [tail]
      exact fun h => List.getLast_append_right none_
    simpa [same] using last

end Parts.Absolute

end UrlText
