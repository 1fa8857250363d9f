import NewsNotifier.Utf8Decoding
import Mathlib

namespace QueryStrings

open Utf8

def hexDigit (n : Nat) : Char := if n < 10 then Char.ofNat (0x30 + n) else Char.ofNat (0x37 + n)

def hexValue (c : Char) : Option Nat :=
  if c.isDigit then some (c.toNat - 0x30)
  else if 'A' ≤ c ∧ c ≤ 'F' then some (c.toNat - 0x37)
  else if 'a' ≤ c ∧ c ≤ 'f' then some (c.toNat - 0x57)
  else none

/-- The characters that `quote` never escapes. -/
def unreserved (c : Char) : Bool := c.isAlphanum || c == '_' || c == '.' || c == '-' || c == '~'

def quoteByte (b : UInt8) : List Char :=
  if unreserved (Char.ofNat b.toNat) then [Char.ofNat b.toNat]
  else ['%', hexDigit (b.toNat / 16), hexDigit (b.toNat % 16)]

/-- `quote_plus` with nothing safe. -/
def quotePlus (cs : List Char) : List Char :=
  cs.flatMap fun c => if c = ' ' then ['+'] else (String.utf8EncodeChar c).flatMap quoteByte

def escape (c a b : Char) : Option UInt8 :=
  if c = '%' then
    match hexValue a, hexValue b with
    | some x, some y => some (UInt8.ofNat (16 * x + y))
    | _, _ => none
  else none

/-- `unquote_to_bytes`: the escapes are their bytes, all else is in UTF-8. -/
def unquoteToBytes : List Char → List UInt8
  | [] => []
  | [c] => String.utf8EncodeChar c
  | [c, a] => String.utf8EncodeChar c ++ String.utf8EncodeChar a
  | c :: a :: b :: cs =>
    match escape c a b with
    | some x => x :: unquoteToBytes cs
    | none => String.utf8EncodeChar c ++ unquoteToBytes (a :: b :: cs)

/-- `unquote`: each maximal run of ASCII characters is unquoted on its own. -/
def unquoteRuns : List Char → List Char → List Char
  | run, [] => decode (unquoteToBytes run)
  | run, c :: cs =>
    if c.toNat < 128 then unquoteRuns (run ++ [c]) cs
    else decode (unquoteToBytes run) ++ c :: unquoteRuns [] cs

def unquote (cs : List Char) : List Char := unquoteRuns [] cs

def plusToSpace (cs : List Char) : List Char := cs.map fun c => if c = '+' then ' ' else c

/-- `str.split(c, 1)`. -/
def splitFirst (c : Char) : List Char → List Char × Option (List Char)
  | [] => ([], none)
  | x :: xs =>
    if x = c then ([], some xs)
    else (x :: (splitFirst c xs).1, (splitFirst c xs).2)

def unquotePlus (cs : List Char) : List Char := unquote (plusToSpace cs)

/-- The bytes that a name or a value of a query stands for. -/
def octets (cs : List Char) : List UInt8 := unquoteToBytes (plusToSpace cs)

/-- The bytes are text in UTF-8 without a replacement character. -/
def legible (bs : List UInt8) : Bool := !(decode bs).contains replacement

/-- One `&`-separated field as `parse_qsl` reads it. -/
def parseField (keepBlank : Bool) (field : List Char) : Option (List Char × List Char) :=
  if field = [] then none
  else
    match splitFirst '=' field with
    | (name, none) => if keepBlank then some (unquotePlus name, []) else none
    | (name, some value) =>
      if value = [] ∧ keepBlank = false then none else some (unquotePlus name, unquotePlus value)

/-- `parse_qsl` with its `keep_blank_values`. -/
def parseQsl (keepBlank : Bool) (query : List Char) : List (List Char × List Char) :=
  (query.splitOn '&').filterMap (parseField keepBlank)

def joinFields (fields : List (List Char)) : List Char := ['&'].intercalate fields

def encodeField (kv : List Char × List Char) : List Char := quotePlus kv.1 ++ '=' :: quotePlus kv.2

def urlencode (kvs : List (List Char × List Char)) : List Char := joinFields (kvs.map encodeField)

theorem byte_toNat {n : Nat} (h : n < 256) : (Char.ofNat n).toNat = n := by
  have valid : n.isValidChar := Or.inl (by omega)
  rw [Char.ofNat, dif_pos valid]
  rfl

theorem hexDigit_bounds {n : Nat} (h : n < 16) :
    hexValue (hexDigit n) = some n ∧ (hexDigit n).toNat < 128 ∧ hexDigit n ≠ '+' ∧
      (hexDigit n).isAlphanum = true := by
  revert n
  decide

theorem unreserved_bounds {c : Char} (h : unreserved c = true) :
    c.toNat < 128 ∧ c ≠ '%' ∧ c ≠ '+' ∧ c ≠ ' ' := by
  have code : c.val.toNat = c.toNat := rfl
  simp only [unreserved, Char.isAlphanum, Char.isAlpha, Char.isUpper, Char.isLower, Char.isDigit,
    Bool.or_eq_true, Bool.and_eq_true, decide_eq_true_eq, beq_iff_eq, ge_iff_le,
    UInt32.le_iff_toNat_le, code] at h
  have apart : ∀ d : Char, c.toNat ≠ d.toNat → c ≠ d := fun d ne e => ne (e ▸ rfl)
  rcases h with (((((h | h) | h) | rfl) | rfl) | rfl) | rfl
  all_goals first
    | exact ⟨by decide, by decide, by decide, by decide⟩
    | refine ⟨?_, apart _ ?_, apart _ ?_, apart _ ?_⟩ <;> simp at h ⊢ <;> omega

/-- What a quoted text is made of. -/
def quotedChar (c : Char) : Bool := unreserved c || c == '%' || c == '+'

theorem quoteByte_chars {b : UInt8} {c : Char} (h : c ∈ quoteByte b) :
    quotedChar c = true ∧ c ≠ '+' := by
  have bound : b.toNat < 256 := b.toNat_lt
  have digit : ∀ n, n < 16 → quotedChar (hexDigit n) = true ∧ hexDigit n ≠ '+' := by
    intro n hn
    obtain ⟨_, _, plus, alphanum⟩ := hexDigit_bounds hn
    exact ⟨by simp [quotedChar, unreserved, alphanum], plus⟩
  unfold quoteByte at h
  split at h
  next free =>
    obtain rfl := List.mem_singleton.mp h
    exact ⟨by simp [quotedChar, free], (unreserved_bounds free).2.2.1⟩
  next =>
    simp only [List.mem_cons, List.not_mem_nil, or_false] at h
    rcases h with rfl | rfl | rfl
    · decide
    · exact digit _ (by omega)
    · exact digit _ (by omega)

theorem quotePlus_chars {cs : List Char} {c : Char} (h : c ∈ quotePlus cs) : quotedChar c = true := by
  obtain ⟨x, _, hx⟩ := List.mem_flatMap.mp h
  split at hx
  next =>
    obtain rfl := List.mem_singleton.mp hx
    decide
  next =>
    obtain ⟨b, _, hb⟩ := List.mem_flatMap.mp hx
    exact (quoteByte_chars hb).1

theorem quotedChar_bounds {c : Char} (h : quotedChar c = true) :
    c.toNat < 128 ∧ ∀ d ∈ ['&', '=', '/', '?', '#', '\t', '\r', '\n'], c ≠ d := by
  constructor
  · simp only [quotedChar, Bool.or_eq_true, beq_iff_eq] at h
    rcases h with (h | rfl) | rfl
    · exact (unreserved_bounds h).1
    · decide
    · decide
  · rintro d hd rfl
    have none_ : ['&', '=', '/', '?', '#', '\t', '\r', '\n'].all (fun d => !quotedChar d) = true := by decide
    simpa [h] using List.all_eq_true.mp none_ c hd

theorem quotePlus_absent {cs : List Char} {d : Char} (hd : d ∈ ['&', '=', '/', '?', '#', '\t', '\r', '\n']) :
    d ∉ quotePlus cs :=
  fun h => (quotedChar_bounds (quotePlus_chars h)).2 d hd rfl

theorem unquoteToBytes_cons {c : Char} (h : c ≠ '%') (cs : List Char) :
    unquoteToBytes (c :: cs) = String.utf8EncodeChar c ++ unquoteToBytes cs := by
  match cs with
  | [] => simp [unquoteToBytes]
  | [_] => rfl
  | a :: b :: cs => simp [unquoteToBytes, escape, h]

theorem hexValue_outside {c : Char} (h : ¬c.toNat < 128) : hexValue c = none := by
  have code : c.val.toNat = c.toNat := rfl
  have digit : c.isDigit = false := by
    simp only [Char.isDigit, Bool.and_eq_false_iff, decide_eq_false_iff_not, ge_iff_le, UInt32.le_iff_toNat_le, code]
    simp
    omega
  have upper : ¬('A' ≤ c ∧ c ≤ 'F') := by
    rintro ⟨_, le⟩
    have le : c.toNat ≤ 70 := le
    omega
  have lower : ¬('a' ≤ c ∧ c ≤ 'f') := by
    rintro ⟨_, le⟩
    have le : c.toNat ≤ 102 := le
    omega
  rw [hexValue, if_neg (by simp [digit]), if_neg upper, if_neg lower]

theorem escape_outside {c x y : Char} (h : ¬x.toNat < 128 ∨ ¬y.toNat < 128) : escape c x y = none := by
  unfold escape
  split
  next =>
    rcases h with h | h
    · rw [hexValue_outside h]
    · rw [hexValue_outside h]
      cases hexValue x <;> rfl
  next => rfl

/-- No escape stretches over a character that is not ASCII. -/
theorem unquoteToBytes_append {c : Char} (h : ¬c.toNat < 128) (xs ys : List Char) :
    unquoteToBytes (xs ++ c :: ys) = unquoteToBytes xs ++ (String.utf8EncodeChar c ++ unquoteToBytes ys) := by
  have ne : c ≠ '%' := by
    rintro rfl
    exact h (by decide)
  have alone (x : Char) (zs : List Char) :
      unquoteToBytes (x :: c :: zs) = String.utf8EncodeChar x ++ unquoteToBytes (c :: zs) := by
    cases zs with
    | nil => rfl
    | cons z zs => rw [unquoteToBytes, escape_outside (.inl h)]
  induction xs using unquoteToBytes.induct with
  | case1 => exact unquoteToBytes_cons ne ys
  | case2 x =>
    show unquoteToBytes (x :: c :: ys) = _
    rw [alone, unquoteToBytes_cons ne]
    rfl
  | case3 x y =>
    show unquoteToBytes (x :: y :: c :: ys) = _
    have first : unquoteToBytes (x :: y :: c :: ys) = String.utf8EncodeChar x ++ unquoteToBytes (y :: c :: ys) := by
      rw [unquoteToBytes.eq_4, escape_outside (.inr h)]
    rw [first, alone, unquoteToBytes_cons ne, unquoteToBytes, List.append_assoc]
  | case4 x y z zs b found ih =>
    show unquoteToBytes (x :: y :: z :: (zs ++ c :: ys)) = _
    rw [unquoteToBytes, unquoteToBytes, found]
    exact congrArg (b :: ·) ih
  | case5 x y z zs none_ ih =>
    show unquoteToBytes (x :: y :: z :: (zs ++ c :: ys)) = _
    rw [unquoteToBytes, unquoteToBytes, none_, List.append_assoc]
    exact congrArg (String.utf8EncodeChar x ++ ·) ih

theorem unquoteToBytes_eq_nil {cs : List Char} : unquoteToBytes cs = [] ↔ cs = [] := by
  match cs with
  | [] => exact ⟨fun _ => rfl, fun _ => rfl⟩
  | [_] => simp [unquoteToBytes, String.utf8EncodeChar_ne_nil]
  | [_, _] => simp [unquoteToBytes, String.utf8EncodeChar_ne_nil]
  | c :: a :: b :: cs =>
    rw [unquoteToBytes]
    split <;> simp [String.utf8EncodeChar_ne_nil]

theorem unquoteToBytes_quoteByte (b : UInt8) (cs : List Char) :
    unquoteToBytes (quoteByte b ++ cs) = b :: unquoteToBytes cs := by
  have bound : b.toNat < 256 := b.toNat_lt
  unfold quoteByte
  split
  next free =>
    have code : (Char.ofNat b.toNat).toNat = b.toNat := byte_toNat bound
    rw [List.singleton_append, unquoteToBytes_cons (unreserved_bounds free).2.1,
      encodeChar_ascii (unreserved_bounds free).1, code, UInt8.ofNat_toNat]
    rfl
  next =>
    have high := (hexDigit_bounds (show b.toNat / 16 < 16 by omega)).1
    have low := (hexDigit_bounds (show b.toNat % 16 < 16 by omega)).1
    have whole : 16 * (b.toNat / 16) + b.toNat % 16 = b.toNat := by omega
    show unquoteToBytes ('%' :: hexDigit (b.toNat / 16) :: hexDigit (b.toNat % 16) :: cs) = _
    simp only [unquoteToBytes, escape, if_true, high, low, whole, UInt8.ofNat_toNat]

theorem unquoteToBytes_quoteBytes (bs : List UInt8) (cs : List Char) :
    unquoteToBytes (bs.flatMap quoteByte ++ cs) = bs ++ unquoteToBytes cs := by
  induction bs with
  | nil => rfl
  | cons b bs ih =>
    rw [List.flatMap_cons, List.append_assoc, unquoteToBytes_quoteByte, ih]
    rfl

theorem plusToSpace_quoteBytes (bs : List UInt8) :
    plusToSpace (bs.flatMap quoteByte) = bs.flatMap quoteByte := by
  refine (List.map_congr_left fun c hc => ?_).trans (List.map_id _)
  obtain ⟨b, _, hb⟩ := List.mem_flatMap.mp hc
  rw [if_neg (quoteByte_chars hb).2]
  rfl

theorem unquoteToBytes_quotePlus (cs : List Char) :
    unquoteToBytes (plusToSpace (quotePlus cs)) = encode cs := by
  induction cs with
  | nil => rfl
  | cons c cs ih =>
    have split_ : plusToSpace (quotePlus (c :: cs)) = plusToSpace (if c = ' ' then ['+'] else
        (String.utf8EncodeChar c).flatMap quoteByte) ++ plusToSpace (quotePlus cs) := List.map_append
    rw [split_, encode_cons]
    by_cases space : c = ' '
    · subst space
      show unquoteToBytes (' ' :: plusToSpace (quotePlus cs)) = [32] ++ encode cs
      rw [unquoteToBytes_cons (by decide), ih]
      rfl
    · rw [if_neg space, plusToSpace_quoteBytes, unquoteToBytes_quoteBytes, ih]

theorem unquoteRuns_ascii {run cs : List Char} (h : ∀ c ∈ cs, c.toNat < 128) :
    unquoteRuns run cs = decode (unquoteToBytes (run ++ cs)) := by
  induction cs generalizing run with
  | nil => rw [unquoteRuns, List.append_nil]
  | cons c cs ih =>
    rw [unquoteRuns, if_pos (h c List.mem_cons_self), ih fun x hx => h x (List.mem_cons_of_mem c hx),
      List.append_assoc]
    rfl

/-- What is unquoted without a replacement keeps its bytes. -/
theorem unquoteToBytes_runs {run cs : List Char} (h : replacement ∉ unquoteRuns run cs) :
    unquoteToBytes (run ++ cs) = encode (unquoteRuns run cs) := by
  induction cs generalizing run with
  | nil =>
    rw [unquoteRuns] at h ⊢
    rw [List.append_nil, encode_decode h]
  | cons c cs ih =>
    rw [unquoteRuns] at h ⊢
    split at h
    next small =>
      rw [if_pos small, ← ih h, List.append_assoc]
      rfl
    next large =>
      rw [if_neg large]
      have front : replacement ∉ decode (unquoteToBytes run) := fun mem => h (List.mem_append_left _ mem)
      have back : replacement ∉ unquoteRuns [] cs := fun mem =>
        h (List.mem_append_right _ (List.mem_cons_of_mem _ mem))
      rw [unquoteToBytes_append large, encode_append, encode_cons, encode_decode front, ← ih back]
      rfl

/-- The bytes of a text are unquoted to it, wherever the runs are cut. -/
theorem unquoteRuns_encode {run cs t : List Char} (h : unquoteToBytes (run ++ cs) = encode t) :
    unquoteRuns run cs = t := by
  induction cs generalizing run t with
  | nil =>
    rw [List.append_nil] at h
    rw [unquoteRuns, h, decode_encode]
  | cons c cs ih =>
    rw [unquoteRuns]
    split
    next =>
      refine ih ?_
      rw [List.append_assoc]
      exact h
    next large =>
      rw [unquoteToBytes_append large] at h
      obtain ⟨before, after, rfl, front, rest⟩ := encode_split h.symm
      have rest : unquoteToBytes ([] ++ cs) = encode after := rest
      rw [front, decode_encode, ih rest]

theorem octets_of_unquotePlus {cs : List Char} (h : replacement ∉ unquotePlus cs) :
    octets cs = encode (unquotePlus cs) := unquoteToBytes_runs h

theorem unquotePlus_of_legible {cs : List Char} (h : legible (octets cs) = true) :
    unquotePlus cs = decode (octets cs) := by
  have none_ : replacement ∉ decode (octets cs) := by simpa [legible] using h
  exact unquoteRuns_encode (encode_decode none_).symm

/-- The text and the bytes show the same replacements. -/
theorem legible_iff {cs : List Char} : legible (octets cs) = true ↔ replacement ∉ unquotePlus cs := by
  constructor
  · intro h
    rw [unquotePlus_of_legible h]
    simpa [legible] using h
  · intro h
    rw [legible, octets_of_unquotePlus h, decode_encode]
    simpa using h

theorem unquoteRuns_ne_nil {run cs : List Char} (h : run ++ cs ≠ []) : unquoteRuns run cs ≠ [] := by
  induction cs generalizing run with
  | nil =>
    rw [unquoteRuns, Ne, decode_eq_nil, unquoteToBytes_eq_nil]
    simpa using h
  | cons c cs ih =>
    rw [unquoteRuns]
    split
    next => exact ih (by simp)
    next => simp

/-- Quoting is undone. -/
theorem unquotePlus_quotePlus (cs : List Char) : unquotePlus (quotePlus cs) = cs := by
  have ascii : ∀ c ∈ plusToSpace (quotePlus cs), c.toNat < 128 := by
    intro c hc
    obtain ⟨x, hx, rfl⟩ := List.mem_map.mp hc
    split
    next => decide
    next => exact (quotedChar_bounds (quotePlus_chars hx)).1
  rw [unquotePlus, unquote, unquoteRuns_ascii ascii, List.nil_append, unquoteToBytes_quotePlus, decode_encode]

theorem unquotePlus_ne_nil {cs : List Char} (h : cs ≠ []) : unquotePlus cs ≠ [] :=
  unquoteRuns_ne_nil (by simpa [plusToSpace] using h)

theorem splitFirst_absent {c : Char} {xs : List Char} (h : c ∉ xs) : splitFirst c xs = (xs, none) := by
  induction xs with
  | nil => rfl
  | cons x xs ih =>
    simp only [List.mem_cons, not_or] at h
    obtain ⟨ne, rest⟩ := h
    rw [splitFirst, if_neg (Ne.symm ne), ih rest]

theorem splitFirst_append {c : Char} {xs : List Char} (h : c ∉ xs) (ys : List Char) :
    splitFirst c (xs ++ c :: ys) = (xs, some ys) := by
  induction xs with
  | nil => rw [List.nil_append, splitFirst, if_pos rfl]
  | cons x xs ih =>
    simp only [List.mem_cons, not_or] at h
    obtain ⟨ne, rest⟩ := h
    rw [List.cons_append, splitFirst, if_neg (Ne.symm ne), ih rest]

theorem splitFirst_fst_absent (c : Char) (xs : List Char) : c ∉ (splitFirst c xs).1 := by
  induction xs with
  | nil => exact List.not_mem_nil
  | cons x xs ih =>
    rw [splitFirst]
    split
    next => exact List.not_mem_nil
    next ne => exact List.not_mem_cons_of_ne_of_not_mem (Ne.symm ne) ih

theorem parseField_encodeField (kv : List Char × List Char) :
    parseField false (encodeField kv) = if kv.2 = [] then none else some kv := by
  have nonempty : encodeField kv ≠ [] := by simp [encodeField]
  have blank : quotePlus kv.2 = [] ↔ kv.2 = [] := by
    constructor
    · intro h
      rw [← unquotePlus_quotePlus kv.2, h]
      rfl
    · intro h
      rw [h]
      rfl
  have cut : splitFirst '=' (encodeField kv) = (quotePlus kv.1, some (quotePlus kv.2)) :=
    splitFirst_append (quotePlus_absent (by simp)) _
  rw [parseField, if_neg nonempty, cut]
  simp only [blank, and_true, unquotePlus_quotePlus]

theorem parseQsl_append (keep : Bool) (xs ys : List Char) :
    parseQsl keep (xs ++ '&' :: ys) = parseQsl keep xs ++ parseQsl keep ys := by
  rw [parseQsl, List.splitOn_append_cons_self, List.filterMap_append]
  rfl

theorem parseQsl_single {keep : Bool} {field : List Char} (h : '&' ∉ field) :
    parseQsl keep field = (parseField keep field).toList := by
  rw [parseQsl, List.splitOn_eq_singleton h]
  cases hf : parseField keep field <;> simp [hf]

/-- The fields of a query are parsed one by one. -/
theorem parseQsl_joinFields (keep : Bool) (fields : List (List Char)) :
    parseQsl keep (joinFields fields) = fields.flatMap (parseQsl keep) := by
  induction fields with
  | nil => rfl
  | cons field fields ih =>
    cases fields with
    | nil => simp [joinFields]
    | cons next fields =>
      have cut : joinFields (field :: next :: fields) = field ++ '&' :: joinFields (next :: fields) := by
        simp [joinFields]
      rw [cut, parseQsl_append, ih]
      rfl

theorem encodeField_single (kv : List Char × List Char) : '&' ∉ encodeField kv := by
  simp only [encodeField, List.mem_append, List.mem_cons, not_or]
  exact ⟨quotePlus_absent (by simp), by decide, quotePlus_absent (by simp)⟩

/-- What has been encoded is parsed back, but for the blank values. -/
theorem parseQsl_urlencode (kvs : List (List Char × List Char)) :
    parseQsl false (urlencode kvs) = kvs.filter fun kv => kv.2 ≠ [] := by
  rw [urlencode, parseQsl_joinFields]
  induction kvs with
  | nil => rfl
  | cons kv kvs ih =>
    rw [List.map_cons, List.flatMap_cons, ih, parseQsl_single (encodeField_single kv), parseField_encodeField]
    by_cases blank : kv.2 = [] <;> simp [blank]

theorem parseField_keep {field : List Char} :
    parseField false field = (parseField true field).filter fun kv => kv.2 ≠ [] := by
  unfold parseField
  by_cases empty : field = []
  · rw [if_pos empty, if_pos empty]
    rfl
  · rw [if_neg empty, if_neg empty]
    cases cut : splitFirst '=' field with
    | mk name value =>
      cases value with
      | none => simp [Option.filter_some]
      | some value =>
        by_cases blank : value = []
        · have gone : unquotePlus [] = [] := rfl
          simp [blank, Option.filter_some, gone]
        · simp [blank, Option.filter_some, unquotePlus_ne_nil blank]

/-- Without `keep_blank_values` the blank fields are dropped and nothing else. -/
theorem parseQsl_keep (query : List Char) :
    parseQsl false query = (parseQsl true query).filter fun kv => kv.2 ≠ [] := by
  unfold parseQsl
  rw [List.filter_filterMap]
  exact List.filterMap_congr fun field _ => parseField_keep

theorem urlencode_chars {kvs : List (List Char × List Char)} {c : Char} (h : c ∈ urlencode kvs) :
    quotedChar c = true ∨ c = '=' ∨ c = '&' := by
  induction kvs with
  | nil => simp [urlencode, joinFields] at h
  | cons kv kvs ih =>
    have first : c ∈ encodeField kv → quotedChar c = true ∨ c = '=' ∨ c = '&' := by
      intro h
      rcases List.mem_append.mp h with h | h
      · exact .inl (quotePlus_chars h)
      · rcases List.mem_cons.mp h with h | h
        · exact .inr (.inl h)
        · exact .inl (quotePlus_chars h)
    cases kvs with
    | nil => exact first (by simpa [urlencode, joinFields] using h)
    | cons next kvs =>
      have cut : urlencode (kv :: next :: kvs) = encodeField kv ++ '&' :: urlencode (next :: kvs) := by
        simp [urlencode, joinFields]
      rw [cut] at h
      rcases List.mem_append.mp h with h | h
      · exact first h
      · rcases List.mem_cons.mp h with h | h
        · exact .inr (.inr h)
        · exact ih h

theorem urlencode_eq_nil {kvs : List (List Char × List Char)} : urlencode kvs = [] ↔ kvs = [] := by
  cases kvs with
  | nil => exact ⟨fun _ => rfl, fun _ => rfl⟩
  | cons kv kvs => cases kvs <;> simp [urlencode, joinFields, encodeField]

end QueryStrings
