import NewsNotifier.PyValues

namespace NewsNotifier

/-- How `json` writes a float, `float.__repr__`, and reads the text of one back. -/
structure JsonNumbers where
  repr : Rat → List Char
  read : List Char → Option Rat

/-- A character of a number. -/
def isNumeral (c : Char) : Bool := c.isDigit || c ∈ ['-', '+', '.', 'e', 'E']

/-- The number is one that has a text: `float(repr(x)) == x`. -/
structure JsonNumbers.Reads (numbers : JsonNumbers) (q : Rat) : Prop where
  nonempty : numbers.repr q ≠ []
  numerals : ∀ c ∈ numbers.repr q, isNumeral c = true
  inverse : numbers.read (numbers.repr q) = some q

namespace JsonText

def hexDigit (n : Nat) : Char := "0123456789abcdef".toList.getD n '0'

def hexValue (c : Char) : Option Nat :=
  if '0' ≤ c ∧ c ≤ '9' then some (c.toNat - 48)
  else if 'a' ≤ c ∧ c ≤ 'f' then some (c.toNat - 87)
  else if 'A' ≤ c ∧ c ≤ 'F' then some (c.toNat - 55)
  else none

/-- `\\u{0:04x}`. -/
def writeUnit (n : Nat) : List Char :=
  ['\\', 'u', hexDigit (n / 4096 % 16), hexDigit (n / 256 % 16), hexDigit (n / 16 % 16), hexDigit (n % 16)]

def highOf (n : Nat) : Nat := 55296 + (n - 65536) / 1024

def lowOf (n : Nat) : Nat := 56320 + (n - 65536) % 1024

/-- `ESCAPE_DCT`. -/
def escapes : List (Char × Char) :=
  [('"', '"'), ('\\', '\\'), ('\n', 'n'), ('\r', 'r'), ('\t', 't'), (Char.ofNat 12, 'f'), (Char.ofNat 8, 'b')]

/-- `BACKSLASH`. -/
def backslash : List (Char × Char) :=
  [('"', '"'), ('\\', '\\'), ('/', '/'), ('b', Char.ofNat 8), ('f', Char.ofNat 12), ('n', '\n'), ('r', '\r'), ('t', '\t')]

/-- One character of `py_encode_basestring_ascii`. -/
def writeChar (c : Char) : List Char :=
  match escapes.find? (·.1 = c) with
  | some escape => ['\\', escape.2]
  | none =>
    if ' ' ≤ c ∧ c ≤ '~' then [c]
    else if c.toNat < 65536 then writeUnit c.toNat
    else writeUnit (highOf c.toNat) ++ writeUnit (lowOf c.toNat)

def writeString (s : String) : List Char := '"' :: (s.toList.flatMap writeChar ++ ['"'])

mutual
/-- `json.dumps` with its default separators. -/
def write (numbers : JsonNumbers) : Json → List Char
  | .null => ['n', 'u', 'l', 'l']
  | .bool true => ['t', 'r', 'u', 'e']
  | .bool false => ['f', 'a', 'l', 's', 'e']
  | .num q => numbers.repr q
  | .str s => writeString s
  | .arr xs => '[' :: writeElements numbers xs
  | .obj fields => '{' :: writeFields numbers fields

def writeElements (numbers : JsonNumbers) : List Json → List Char
  | [] => [']']
  | [x] => write numbers x ++ [']']
  | x :: y :: xs => write numbers x ++ (',' :: ' ' :: writeElements numbers (y :: xs))

def writeFields (numbers : JsonNumbers) : List (String × Json) → List Char
  | [] => ['\x7d']
  | [(key, x)] => writeString key ++ (':' :: ' ' :: (write numbers x ++ ['\x7d']))
  | (key, x) :: y :: fields =>
    writeString key ++ (':' :: ' ' :: (write numbers x ++ (',' :: ' ' :: writeFields numbers (y :: fields))))
end

def isBlank (c : Char) : Bool := c ∈ [' ', '\t', '\n', '\r']

def skip (text : List Char) : List Char := text.dropWhile isBlank

/-- Four hexadecimal digits. -/
def readUnit (a b c d : Char) : Option Nat := do
  let a ← hexValue a
  let b ← hexValue b
  let c ← hexValue c
  let d ← hexValue d
  return a * 4096 + b * 256 + c * 16 + d

/-- The character of a code unit, or of a surrogate pair; a surrogate alone is no character here. -/
def charOf (n : Nat) : Option Char := if n.isValidChar then some (Char.ofNat n) else none

def isHigh (n : Nat) : Bool := 55296 ≤ n && n < 56320

def isLow (n : Nat) : Bool := 56320 ≤ n && n < 57344

def pairOf (high low : Nat) : Nat := 65536 + (high - 55296) * 1024 + (low - 56320)

/-- The character of a surrogate pair from its second unit on. -/
def readLow (high : Nat) : List Char → Option (Char × List Char)
  | '\\' :: 'u' :: a :: b :: c :: d :: rest => do
    let low ← readUnit a b c d
    if isLow low then return (← charOf (pairOf high low), rest)
    else none
  | _ => none

/-- One character of `py_scanstring`. -/
def readChar : List Char → Option (Char × List Char)
  | '\\' :: 'u' :: a :: b :: c :: d :: rest => do
    let unit ← readUnit a b c d
    if isHigh unit then readLow unit rest
    else return (← charOf unit, rest)
  | '\\' :: c :: rest => (backslash.find? (·.1 = c)).map fun escape => (escape.2, rest)
  | c :: rest => if c.toNat < 32 ∨ c = '\\' then none else some (c, rest)
  | [] => none

def readString : Nat → List Char → Option (List Char × List Char)
  | 0, _ => none
  | _ + 1, '"' :: rest => some ([], rest)
  | n + 1, text => do
    let (c, rest) ← readChar text
    let (cs, rest) ← readString n rest
    return (c :: cs, rest)

/-- `pairs` of an object made a dict: of two values of one key the later one stays, in the first one's place. -/
def setField (fields : List (String × Json)) (key : String) (x : Json) : List (String × Json) :=
  if fields.any (·.1 == key) then fields.map fun field => if field.1 = key then (key, x) else field
  else fields ++ [(key, x)]

def dictOf (pairs : List (String × Json)) : List (String × Json) :=
  pairs.foldl (fun fields pair => setField fields pair.1 pair.2) []

mutual
/-- A value at the head of a text, as `json.loads` reads it, within `n` nested calls. -/
def readValue (numbers : JsonNumbers) : Nat → List Char → Option (Json × List Char)
  | 0, _ => none
  | n + 1, text =>
    match skip text with
    | [] => none
    | c :: rest =>
      if isNumeral c then
        (numbers.read ((c :: rest).takeWhile isNumeral)).map fun q => (.num q, (c :: rest).dropWhile isNumeral)
      else
        match c, rest with
        | '"', rest => (readString n rest).map fun read => (.str (String.ofList read.1), read.2)
        | '[', rest =>
          match skip rest with
          | ']' :: rest => some (.arr [], rest)
          | _ => (readElements numbers n rest).map fun read => (.arr read.1, read.2)
        | '\x7b', rest =>
          match skip rest with
          | '\x7d' :: rest => some (.obj [], rest)
          | _ => (readFields numbers n rest).map fun read => (.obj (dictOf read.1), read.2)
        | 'n', 'u' :: 'l' :: 'l' :: rest => some (.null, rest)
        | 't', 'r' :: 'u' :: 'e' :: rest => some (.bool true, rest)
        | 'f', 'a' :: 'l' :: 's' :: 'e' :: rest => some (.bool false, rest)
        | _, _ => none

def readElements (numbers : JsonNumbers) : Nat → List Char → Option (List Json × List Char)
  | 0, _ => none
  | n + 1, text => do
    let (x, rest) ← readValue numbers n text
    match skip rest with
    | ',' :: rest => do
      let (xs, rest) ← readElements numbers n rest
      return (x :: xs, rest)
    | ']' :: rest => some ([x], rest)
    | _ => none

def readFields (numbers : JsonNumbers) : Nat → List Char → Option (List (String × Json) × List Char)
  | 0, _ => none
  | n + 1, text =>
    match skip text with
    | '"' :: rest => do
      let (key, rest) ← readString n rest
      match skip rest with
      | ':' :: rest => do
        let (x, rest) ← readValue numbers n rest
        match skip rest with
        | ',' :: rest => do
          let (fields, rest) ← readFields numbers n rest
          return ((String.ofList key, x) :: fields, rest)
        | '\x7d' :: rest => some ([(String.ofList key, x)], rest)
        | _ => none
      | _ => none
    | _ => none
end

/-- `json.loads`. -/
def loads (numbers : JsonNumbers) (text : List Char) : Option Json :=
  match readValue numbers (text.length + 1) text with
  | some (x, rest) => if skip rest = [] then some x else none
  | none => none

theorem hexValue_hexDigit : ∀ n < 16, hexValue (hexDigit n) = some n := by decide

theorem readUnit_digits {n : Nat} (h : n < 65536) :
    readUnit (hexDigit (n / 4096 % 16)) (hexDigit (n / 256 % 16)) (hexDigit (n / 16 % 16))
    (hexDigit (n % 16)) = some n := by
  have digit : ∀ k, hexValue (hexDigit (k % 16)) = some (k % 16) :=
    fun k => hexValue_hexDigit _ (Nat.mod_lt _ (by decide))
  simp only [readUnit, digit, Option.bind_eq_bind, Option.bind_some, Option.pure_def, Option.some.injEq]
  omega

theorem charOf_toNat (c : Char) : charOf c.toNat = some c := by
  have valid : c.toNat.isValidChar := c.valid
  rw [charOf, if_pos valid, Char.ofNat_toNat]

theorem not_surrogate (c : Char) : ¬ (55296 ≤ c.toNat ∧ c.toNat < 57344) := by
  have valid : c.toNat < 55296 ∨ 57343 < c.toNat ∧ c.toNat < 1114112 := c.valid
  omega

theorem readChar_unit (c : Char) (small : c.toNat < 65536) (rest : List Char) :
    readChar (writeUnit c.toNat ++ rest) = some (c, rest) := by
  have plain := not_surrogate c
  have none : isHigh c.toNat = false := by
    simp only [isHigh, Bool.and_eq_false_iff, decide_eq_false_iff_not]
    omega
  simp [writeUnit, readChar, readUnit_digits small, none, charOf_toNat]

theorem surrogates {n : Nat} (large : 65536 ≤ n) (valid : n < 1114112) : isHigh (highOf n) = true ∧
    isLow (lowOf n) = true ∧ highOf n < 65536 ∧ lowOf n < 65536 ∧ pairOf (highOf n) (lowOf n) = n := by
  have first : highOf n < 56320 := by unfold highOf; omega
  have second : lowOf n < 57344 := by unfold lowOf; omega
  have least : 55296 ≤ highOf n := Nat.le_add_right _ _
  have least' : 56320 ≤ lowOf n := Nat.le_add_right _ _
  refine ⟨?_, ?_, by omega, by omega, ?_⟩
  · simp [isHigh, first, least]
  · simp [isLow, second, least']
  · unfold pairOf highOf lowOf
    omega

theorem readLow_unit {c : Char} {high low : Nat} (small : low < 65536) (own : isLow low = true)
    (whole : pairOf high low = c.toNat) (rest : List Char) : readLow high (writeUnit low ++ rest) = some (c, rest) := by
  simp [writeUnit, readLow, readUnit_digits small, own, whole, charOf_toNat]

theorem readChar_high {high : Nat} (small : high < 65536) (own : isHigh high = true) (rest : List Char) :
    readChar (writeUnit high ++ rest) = readLow high rest := by
  simp [writeUnit, readChar, readUnit_digits small, own]

theorem readChar_pair (c : Char) (large : 65536 ≤ c.toNat) (rest : List Char) :
    readChar (writeUnit (highOf c.toNat) ++ (writeUnit (lowOf c.toNat) ++ rest)) = some (c, rest) := by
  have valid : c.toNat < 55296 ∨ 57343 < c.toNat ∧ c.toNat < 1114112 := c.valid
  obtain ⟨high, low, first, second, whole⟩ := surrogates large (by omega)
  rw [readChar_high first high, readLow_unit second low whole]

theorem escapes_back : ∀ escape ∈ escapes, escape.2 ≠ 'u' ∧
    (backslash.find? (·.1 = escape.2)).map (·.2) = some escape.1 := by decide

theorem escaped {c : Char} {escape : Char × Char} (found : escapes.find? (·.1 = c) = some escape) :
    escape ∈ escapes ∧ escape.1 = c :=
  ⟨List.mem_of_find?_eq_some found, by simpa using List.find?_some found⟩

theorem unescaped {c : Char} (none : escapes.find? (·.1 = c) = none) : c ≠ '"' ∧ c ≠ '\\' := by
  have other : ∀ escape ∈ escapes, escape.1 ≠ c := by simpa using none
  exact ⟨fun same => other ('"', '"') (by decide) same.symm, fun same => other ('\\', '\\') (by decide) same.symm⟩

theorem readChar_writeChar (c : Char) (rest : List Char) : readChar (writeChar c ++ rest) = some (c, rest) := by
  unfold writeChar
  split
  next escape found =>
    obtain ⟨mem, rfl⟩ := escaped found
    obtain ⟨notUnit, back⟩ := escapes_back escape mem
    obtain ⟨pair, here, same⟩ := Option.map_eq_some_iff.mp back
    simp [readChar, notUnit, here, same]
  next none =>
    obtain ⟨_, slash⟩ := unescaped none
    split
    next plain =>
      have space : 32 ≤ c.toNat := plain.1
      simpa [readChar, slash] using space
    split
    next small => exact readChar_unit c small rest
    next large => exact List.append_assoc _ _ _ ▸ readChar_pair c (not_lt.mp large) rest

theorem writeChar_head (c : Char) : ∃ d text, writeChar c = d :: text ∧ d ≠ '"' := by
  unfold writeChar
  split
  next => exact ⟨_, _, rfl, by decide⟩
  next none =>
    split
    next => exact ⟨c, [], rfl, (unescaped none).1⟩
    split
    next => exact ⟨_, _, rfl, by decide⟩
    next => exact ⟨_, _, rfl, by decide⟩

theorem readString_char {n : Nat} {c : Char} {cs text rest : List Char}
    (later : readString n text = some (cs, rest)) :
    readString (n + 1) (writeChar c ++ text) = some (c :: cs, rest) := by
  have read := readChar_writeChar c text
  obtain ⟨d, more, starts, open_⟩ := writeChar_head c
  rw [starts, List.cons_append] at read ⊢
  simp [readString, open_, read, later]

theorem readString_written (s rest : List Char) {n : Nat} (long : s.length < n) :
    readString n (s.flatMap writeChar ++ '"' :: rest) = some (s, rest) := by
  induction s generalizing n with
  | nil =>
    obtain ⟨n, rfl⟩ := Nat.exists_eq_succ_of_ne_zero (Nat.ne_of_gt long)
    rfl
  | cons c s ih =>
    obtain ⟨n, rfl⟩ := Nat.exists_eq_succ_of_ne_zero (Nat.ne_of_gt (Nat.zero_lt_of_lt long))
    rw [List.flatMap_cons, List.append_assoc]
    exact readString_char (ih (Nat.lt_of_succ_lt_succ long))

mutual
/-- What `json` can write so that it can be read back: the numbers have texts, and no dict has a key twice. -/
def Writable (numbers : JsonNumbers) : Json → Prop
  | .num q => numbers.Reads q
  | .arr xs => WritableElements numbers xs
  | .obj fields => (fields.map (·.1)).Nodup ∧ WritableFields numbers fields
  | _ => True

def WritableElements (numbers : JsonNumbers) : List Json → Prop
  | [] => True
  | x :: xs => Writable numbers x ∧ WritableElements numbers xs

def WritableFields (numbers : JsonNumbers) : List (String × Json) → Prop
  | [] => True
  | (_, x) :: fields => Writable numbers x ∧ WritableFields numbers fields
end

theorem dictOf_nodup {fields : List (String × Json)} (keys : (fields.map (·.1)).Nodup) : dictOf fields = fields := by
  have folds : ∀ (kept fields : List (String × Json)), ((kept ++ fields).map (·.1)).Nodup →
      fields.foldl (fun fields pair => setField fields pair.1 pair.2) kept = kept ++ fields := by
    intro kept fields keys
    induction fields generalizing kept with
    | nil => exact (List.append_nil kept).symm
    | cons pair fields ih =>
      have new : kept.any (·.1 == pair.1) = false := by
        rw [List.any_eq_false]
        intro old ho
        rw [List.map_append, List.map_cons] at keys
        have apart := (List.nodup_append.mp keys).2.2 old.1 (List.mem_map_of_mem ho) pair.1 List.mem_cons_self
        simpa using apart
      rw [List.foldl_cons, setField, new, if_neg Bool.false_ne_true,
        ih _ (by rwa [List.append_assoc]), List.append_assoc,
        List.singleton_append]
  exact folds [] fields keys

theorem skip_cons {c : Char} (h : isBlank c = false) (text : List Char) : skip (c :: text) = c :: text := by
  simp [skip, h]

theorem numeral_solid {c : Char} (h : isNumeral c = true) : isBlank c = false := by
  cases blank : isBlank c with
  | false => rfl
  | true =>
    simp only [isBlank, decide_eq_true_eq, List.mem_cons, List.not_mem_nil, or_false] at blank
    rcases blank with rfl | rfl | rfl | rfl <;> cases h

/-- The first character of a value is one that its reader chooses by. -/
theorem write_head (numbers : JsonNumbers) {x : Json} (h : Writable numbers x) :
    ∃ c text, write numbers x = c :: text ∧ isBlank c = false ∧ c ≠ ']' := by
  cases x with
  | null => exact ⟨_, _, rfl, by decide, by decide⟩
  | bool b => cases b <;> exact ⟨_, _, rfl, by decide, by decide⟩
  | str s => exact ⟨_, _, rfl, by decide, by decide⟩
  | arr xs => exact ⟨_, _, rfl, by decide, by decide⟩
  | obj fields => exact ⟨_, _, rfl, by decide, by decide⟩
  | num q =>
    have reads : numbers.Reads q := h
    obtain ⟨c, text, starts⟩ := List.exists_cons_of_ne_nil reads.nonempty
    have numeral : isNumeral c = true := reads.numerals c (starts ▸ List.mem_cons_self)
    refine ⟨c, text, starts, numeral_solid numeral, ?_⟩
    rintro rfl
    cases numeral

/-- What follows a value does not go on with a number. -/
def Stops (rest : List Char) : Prop := ∀ c ∈ rest.head?, isNumeral c = false

theorem read_number {numbers : JsonNumbers} {q : Rat} (h : numbers.Reads q) {rest : List Char} (stops : Stops rest)
    (n : Nat) : readValue numbers (n + 1) (numbers.repr q ++ rest) = some (.num q, rest) := by
  obtain ⟨c, text, starts⟩ := List.exists_cons_of_ne_nil h.nonempty
  have numeral : isNumeral c = true := h.numerals c (starts ▸ List.mem_cons_self)
  have taken : (numbers.repr q ++ rest).takeWhile isNumeral = numbers.repr q := by
    rw [List.takeWhile_append_of_pos h.numerals]
    cases rest with
    | nil => exact List.append_nil _
    | cons d rest => rw [List.takeWhile_cons_of_neg (by simp [stops d rfl]), List.append_nil]
  have dropped : (numbers.repr q ++ rest).dropWhile isNumeral = rest := by
    rw [List.dropWhile_append_of_pos h.numerals]
    cases rest with
    | nil => rfl
    | cons d rest => rw [List.dropWhile_cons_of_neg (by simp [stops d rfl])]
  have headed : skip (numbers.repr q ++ rest) = c :: (text ++ rest) := by
    rw [starts, List.cons_append, skip_cons (numeral_solid numeral)]
  rw [starts, List.cons_append] at taken dropped headed
  rw [readValue, starts, List.cons_append, headed]
  simp only [numeral, if_true, taken, dropped]
  rw [← starts, h.inverse]
  rfl

theorem written_long (s : List Char) : s.length ≤ (s.flatMap writeChar).length := by
  induction s with
  | nil => exact le_rfl
  | cons c s ih =>
    obtain ⟨d, text, starts, _⟩ := writeChar_head c
    rw [List.flatMap_cons, List.length_append, starts, List.length_cons, List.length_cons]
    omega

theorem read_string (s : String) (rest : List Char) {n : Nat} (long : (writeString s).length ≤ n + 1) :
    readString n (s.toList.flatMap writeChar ++ '"' :: rest) = some (s.toList, rest) := by
  refine readString_written s.toList rest ?_
  have each := written_long s.toList
  rw [writeString, List.length_cons, List.length_append, List.length_singleton] at long
  omega

/-- A separator is followed by a blank, which no reader sees. -/
theorem readValue_blank (numbers : JsonNumbers) (n : Nat) (text : List Char) :
    readValue numbers n (' ' :: text) = readValue numbers n text := by
  cases n <;> rfl

theorem readElements_blank (numbers : JsonNumbers) (n : Nat) (text : List Char) :
    readElements numbers n (' ' :: text) = readElements numbers n text := by
  cases n with
  | zero => rfl
  | succ n => rw [readElements, readElements, readValue_blank]

theorem readFields_blank (numbers : JsonNumbers) (n : Nat) (text : List Char) :
    readFields numbers n (' ' :: text) = readFields numbers n text := by
  cases n <;> rfl

theorem readValue_array {numbers : JsonNumbers} {c : Char} {text : List Char} (solid : isBlank c = false)
    (other : c ≠ ']')
    (n : Nat) : readValue numbers (n + 1) ('[' :: c :: text) =
      (readElements numbers n (c :: text)).map fun read => (.arr read.1, read.2) := by
  have start : skip ('[' :: c :: text) = '[' :: c :: text := rfl
  have next : skip (c :: text) = c :: text := skip_cons solid text
  rw [readValue, start]
  simp only [show isNumeral '[' = false from rfl, Bool.false_eq_true, if_false, next]
  split
  next same =>
    obtain ⟨rfl, _⟩ := List.cons.inj same
    exact absurd rfl other
  next => rfl

theorem readValue_object {numbers : JsonNumbers} (text : List Char) (n : Nat) :
    readValue numbers (n + 1) ('\x7b' :: '"' :: text) =
      (readFields numbers n ('"' :: text)).map fun read => (.obj (dictOf read.1), read.2) := rfl

theorem elements_head {numbers : JsonNumbers} {x : Json} {xs : List Json} (h : WritableElements numbers (x :: xs)) :
    ∃ c text, writeElements numbers (x :: xs) = c :: text ∧ isBlank c = false ∧ c ≠ ']' := by
  obtain ⟨c, text, starts, solid, other⟩ := write_head numbers h.1
  cases xs with
  | nil => exact ⟨c, _, by rw [writeElements, starts, List.cons_append], solid, other⟩
  | cons y xs => exact ⟨c, _, by rw [writeElements, starts, List.cons_append], solid, other⟩

theorem fields_head (numbers : JsonNumbers) (field : String × Json) (fields : List (String × Json)) :
    ∃ text, writeFields numbers (field :: fields) = '"' :: text := by
  obtain ⟨key, x⟩ := field
  cases fields <;> exact ⟨_, rfl⟩

mutual
theorem read_write (numbers : JsonNumbers) : ∀ (x : Json), Writable numbers x → ∀ (n : Nat) (rest : List Char),
    Stops rest →
    (write numbers x).length < n → readValue numbers n (write numbers x ++ rest) = some (x, rest)
  | .null, _, n + 1, rest, _, _ => rfl
  | .bool true, _, n + 1, rest, _, _ => rfl
  | .bool false, _, n + 1, rest, _, _ => rfl
  | .num q, h, n + 1, rest, stops, _ => read_number h stops n
  | .str s, _, n + 1, rest, _, long => by
    have read := read_string s rest long.le
    rw [write, writeString, List.cons_append, List.append_assoc, List.singleton_append]
    have opened : readValue numbers (n + 1) ('"' :: (s.toList.flatMap writeChar ++ '"' :: rest)) =
        (readString n (s.toList.flatMap writeChar ++ '"' :: rest)).map fun read =>
          (.str (String.ofList read.1), read.2) := rfl
    rw [opened, read, Option.map_some, String.ofList_toList]
  | .arr [], _, n + 1, rest, _, _ => rfl
  | .arr (x :: xs), h, n + 1, rest, _, long => by
    have read := read_elements numbers x xs h n rest (Nat.lt_of_succ_lt_succ long)
    obtain ⟨c, text, starts, solid, other⟩ := elements_head h
    rw [starts, List.cons_append] at read
    rw [write, starts, List.cons_append, List.cons_append, readValue_array solid other, read]
    rfl
  | .obj [], _, n + 1, rest, _, _ => rfl
  | .obj (field :: fields), h, n + 1, rest, _, long => by
    have read := read_fields numbers field fields h.2 n rest (Nat.lt_of_succ_lt_succ long)
    obtain ⟨text, starts⟩ := fields_head numbers field fields
    rw [starts, List.cons_append] at read
    rw [write, starts, List.cons_append, List.cons_append, readValue_object, read, Option.map_some, dictOf_nodup h.1]

theorem read_elements (numbers : JsonNumbers) : ∀ (x : Json) (xs : List Json), WritableElements numbers (x :: xs) →
    ∀ (n : Nat) (rest : List Char), (writeElements numbers (x :: xs)).length < n →
      readElements numbers n (writeElements numbers (x :: xs) ++ rest) = some (x :: xs, rest)
  | x, [], h, n + 1, rest, long => by
    rw [writeElements, List.length_append, List.length_singleton] at long
    have read := read_write numbers x h.1 n (']' :: rest) (by intro c hc; obtain rfl := Option.some.inj hc; rfl) (by omega)
    rw [writeElements, List.append_assoc, List.singleton_append, readElements, read]
    rfl
  | x, y :: xs, h, n + 1, rest, long => by
    rw [writeElements, List.length_append, List.length_cons, List.length_cons] at long
    have read := read_write numbers x h.1 n (',' :: ' ' :: (writeElements numbers (y :: xs) ++ rest))
      (by intro c hc; obtain rfl := Option.some.inj hc; rfl) (by omega)
    have later := read_elements numbers y xs h.2 n rest (by omega)
    rw [writeElements, List.append_assoc, List.cons_append, List.cons_append, readElements, read]
    have next : readElements numbers n (' ' :: (writeElements numbers (y :: xs) ++ rest)) = some (y :: xs, rest) :=
      (readElements_blank numbers n _).trans later
    change (readElements numbers n (' ' :: (writeElements numbers (y :: xs) ++ rest))).bind
      (fun read => some (x :: read.1, read.2)) = _
    rw [next]
    rfl

theorem read_fields (numbers : JsonNumbers) : ∀ (field : String × Json) (fields : List (String × Json)),
    WritableFields numbers (field :: fields) → ∀ (n : Nat) (rest : List Char),
      (writeFields numbers (field :: fields)).length < n →
        readFields numbers n (writeFields numbers (field :: fields) ++ rest) = some (field :: fields, rest)
  | (key, x), [], h, n + 1, rest, long => by
    rw [writeFields, List.length_append, List.length_cons, List.length_cons, List.length_append,
      List.length_singleton] at long
    have named := read_string key (':' :: ' ' :: (write numbers x ++ '\x7d' :: rest)) (n := n) (by omega)
    have read := read_write numbers x h.1 n ('\x7d' :: rest) (by intro c hc; obtain rfl := Option.some.inj hc; rfl)
      (by omega)
    rw [← readValue_blank] at read
    have shape : writeFields numbers [(key, x)] ++ rest =
        '"' :: (key.toList.flatMap writeChar ++ '"' :: ':' :: ' ' :: (write numbers x ++ '\x7d' :: rest)) := by
      simp [writeFields, writeString]
    rw [shape]
    change (readString n (key.toList.flatMap writeChar ++ '"' :: ':' :: ' ' :: (write numbers x ++ '\x7d' :: rest))).bind
      _ = _
    rw [named, Option.bind_some]
    change (readValue numbers n (' ' :: (write numbers x ++ '\x7d' :: rest))).bind _ = _
    rw [read, Option.bind_some]
    change some ([(String.ofList key.toList, x)], rest) = _
    rw [String.ofList_toList]
  | (key, x), field :: fields, h, n + 1, rest, long => by
    rw [writeFields, List.length_append, List.length_cons, List.length_cons, List.length_append, List.length_cons,
      List.length_cons] at long
    have named := read_string key (':' :: ' ' :: (write numbers x ++
      ',' :: ' ' :: (writeFields numbers (field :: fields) ++ rest))) (n := n) (by omega)
    have read := read_write numbers x h.1 n (',' :: ' ' :: (writeFields numbers (field :: fields) ++ rest))
      (by intro c hc; obtain rfl := Option.some.inj hc; rfl) (by omega)
    have later := read_fields numbers field fields h.2 n rest (by omega)
    rw [← readValue_blank] at read
    rw [← readFields_blank] at later
    have shape : writeFields numbers ((key, x) :: field :: fields) ++ rest =
        '"' :: (key.toList.flatMap writeChar ++ '"' :: ':' :: ' ' :: (write numbers x ++
          ',' :: ' ' :: (writeFields numbers (field :: fields) ++ rest))) := by
      simp [writeFields, writeString]
    rw [shape]
    change (readString n (key.toList.flatMap writeChar ++ '"' :: ':' :: ' ' :: (write numbers x ++
      ',' :: ' ' :: (writeFields numbers (field :: fields) ++ rest)))).bind _ = _
    rw [named, Option.bind_some]
    change (readValue numbers n (' ' :: (write numbers x ++
      ',' :: ' ' :: (writeFields numbers (field :: fields) ++ rest)))).bind _ = _
    rw [read, Option.bind_some]
    change (readFields numbers n (' ' :: (writeFields numbers (field :: fields) ++ rest))).bind _ = _
    rw [later, Option.bind_some]
    change some ((String.ofList key.toList, x) :: field :: fields, rest) = _
    rw [String.ofList_toList]
end

/-- Reading inverts writing. -/
theorem loads_write {numbers : JsonNumbers} {x : Json} (h : Writable numbers x) :
    loads numbers (write numbers x) = some x := by
  have read := read_write numbers x h ((write numbers x).length + 1) [] (by simp [Stops]) (Nat.lt_succ_self _)
  rw [List.append_nil] at read
  rw [loads, read]
  rfl

def isAscii (c : Char) : Bool := c.toNat < 128

theorem hexDigit_ascii : ∀ n < 16, isAscii (hexDigit n) = true := by decide

theorem writeUnit_ascii (n : Nat) : ∀ c ∈ writeUnit n, isAscii c = true := by
  have digit : ∀ k, isAscii (hexDigit (k % 16)) = true := fun k => hexDigit_ascii _ (Nat.mod_lt _ (by decide))
  have lead : isAscii '\\' = true ∧ isAscii 'u' = true := by decide
  simp [writeUnit, digit, lead]

theorem writeChar_ascii (c : Char) : ∀ d ∈ writeChar c, isAscii d = true := by
  have escapesAscii : ∀ escape ∈ escapes, isAscii escape.2 = true := by decide
  have slash : isAscii '\\' = true := by decide
  unfold writeChar
  split
  next escape found =>
    exact List.forall_mem_cons.mpr ⟨slash, List.forall_mem_singleton.mpr (escapesAscii escape (escaped found).1)⟩
  split
  next plain =>
    have tilde : c.toNat ≤ 126 := plain.2
    exact List.forall_mem_singleton.mpr (decide_eq_true (Nat.lt_of_le_of_lt tilde (by decide)))
  split
  next => exact writeUnit_ascii _
  next => exact List.forall_mem_append.mpr ⟨writeUnit_ascii _, writeUnit_ascii _⟩

theorem writeString_ascii (s : String) : ∀ c ∈ writeString s, isAscii c = true := by
  have quote : isAscii '"' = true := by decide
  refine List.forall_mem_cons.mpr ⟨quote,
    List.forall_mem_append.mpr ⟨fun c hc => ?_, List.forall_mem_singleton.mpr quote⟩⟩
  obtain ⟨d, _, hd⟩ := List.mem_flatMap.mp hc
  exact writeChar_ascii d c hd

theorem numeral_ascii {c : Char} (h : isNumeral c = true) : isAscii c = true := by
  rcases Bool.or_eq_true_iff.mp h with digit | sign
  · have nine : c.toNat ≤ 57 := by
      simp only [Char.isDigit, Bool.and_eq_true, decide_eq_true_eq] at digit
      exact digit.2
    exact decide_eq_true (Nat.lt_of_le_of_lt nine (by decide))
  · have signs : ∀ d ∈ ['-', '+', '.', 'e', 'E'], isAscii d = true := List.all_eq_true.mp (by decide)
    exact signs c (of_decide_eq_true sign)

mutual
/-- What is written is ASCII. -/
theorem write_ascii (numbers : JsonNumbers) : ∀ x : Json, Writable numbers x → ∀ c ∈ write numbers x, isAscii c = true
  | .null, _ => show ∀ c ∈ ['n', 'u', 'l', 'l'], isAscii c = true from List.all_eq_true.mp (by decide)
  | .bool true, _ => show ∀ c ∈ ['t', 'r', 'u', 'e'], isAscii c = true from List.all_eq_true.mp (by decide)
  | .bool false, _ => show ∀ c ∈ ['f', 'a', 'l', 's', 'e'], isAscii c = true from List.all_eq_true.mp (by decide)
  | .num q, h => fun c hc => numeral_ascii (JsonNumbers.Reads.numerals h c hc)
  | .str s, _ => writeString_ascii s
  | .arr xs, h => List.forall_mem_cons.mpr ⟨rfl, elements_ascii numbers xs h⟩
  | .obj fields, h => List.forall_mem_cons.mpr ⟨rfl, fields_ascii numbers fields h.2⟩

theorem elements_ascii (numbers : JsonNumbers) : ∀ xs : List Json, WritableElements numbers xs →
    ∀ c ∈ writeElements numbers xs, isAscii c = true
  | [], _ => show ∀ c ∈ [']'], isAscii c = true from List.all_eq_true.mp (by decide)
  | [x], h => List.forall_mem_append.mpr ⟨write_ascii numbers x h.1, List.forall_mem_singleton.mpr rfl⟩
  | x :: y :: xs, h => List.forall_mem_append.mpr ⟨write_ascii numbers x h.1,
      List.forall_mem_cons.mpr ⟨rfl, List.forall_mem_cons.mpr ⟨rfl, elements_ascii numbers (y :: xs) h.2⟩⟩⟩

theorem fields_ascii (numbers : JsonNumbers) : ∀ fields : List (String × Json), WritableFields numbers fields →
    ∀ c ∈ writeFields numbers fields, isAscii c = true
  | [], _ => show ∀ c ∈ ['\x7d'], isAscii c = true from List.all_eq_true.mp (by decide)
  | [(key, x)], h => List.forall_mem_append.mpr ⟨writeString_ascii key, List.forall_mem_cons.mpr ⟨rfl,
      List.forall_mem_cons.mpr ⟨rfl, List.forall_mem_append.mpr ⟨write_ascii numbers x h.1,
        List.forall_mem_singleton.mpr rfl⟩⟩⟩⟩
  | (key, x) :: field :: fields, h => List.forall_mem_append.mpr ⟨writeString_ascii key, List.forall_mem_cons.mpr ⟨rfl,
      List.forall_mem_cons.mpr ⟨rfl, List.forall_mem_append.mpr ⟨write_ascii numbers x h.1, List.forall_mem_cons.mpr ⟨rfl,
        List.forall_mem_cons.mpr ⟨rfl, fields_ascii numbers (field :: fields) h.2⟩⟩⟩⟩⟩⟩
end

end JsonText

end NewsNotifier
