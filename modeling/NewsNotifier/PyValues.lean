import NewsNotifier.LetterCase
import Mathlib.Data.Rat.Floor
import Mathlib.Data.List.Sort

namespace NewsNotifier

/-- A UUID by its `.int`. -/
abbrev Uuid := Nat

/-- An aware datetime by its instant, in microseconds. -/
abbrev Time := Int

abbrev Embedding := List Rat

/-- The exceptions of pure code. -/
inductive PyError where
  | attributeError
  | typeError
  | valueError
  | unicodeEncodeError
  | overflowError
  | external
  deriving DecidableEq

/-- The exceptions a coroutine can end with. -/
inductive Raised where
  | py (e : PyError)
  | runtimeError (message : String)
  | integrityError (constraint : String)
  | dataError
  | httpException (status : Nat)
  deriving DecidableEq

/-- A value that `json.loads` returns. -/
inductive Json where
  | null
  | bool (b : Bool)
  | num (q : Rat)
  | str (s : String)
  | arr (xs : List Json)
  | obj (fields : List (String × Json))

namespace Json

def truthy : Json → Bool
  | null => false
  | bool b => b
  | num q => q != 0
  | str s => s != ""
  | arr xs => !xs.isEmpty
  | obj fields => !fields.isEmpty

/-- `dict.get` on the fields of an object. -/
def field (fields : List (String × Json)) (key : String) : Option Json :=
  (fields.find? (·.1 == key)).map (·.2)

/-- The number that Python's arithmetic takes the value for; `bool` is a subclass of `int`. -/
def number : Json → Option Rat
  | num q => some q
  | bool b => some (if b then 1 else 0)
  | _ => none

def string : Json → Option String
  | str s => some s
  | _ => none

mutual
/-- Equality of JSON values, which no deriving handler gives for a nested type. -/
def beq : Json → Json → Bool
  | null, null => true
  | bool a, bool b => a == b
  | num a, num b => a == b
  | str a, str b => a == b
  | arr xs, arr ys => beqElements xs ys
  | obj xs, obj ys => beqFields xs ys
  | _, _ => false

def beqElements : List Json → List Json → Bool
  | [], [] => true
  | x :: xs, y :: ys => x.beq y && beqElements xs ys
  | _, _ => false

def beqFields : List (String × Json) → List (String × Json) → Bool
  | [], [] => true
  | x :: xs, y :: ys => beqField x y && beqFields xs ys
  | _, _ => false

def beqField : String × Json → String × Json → Bool
  | (k, x), (l, y) => k == l && x.beq y
end

mutual
theorem eq_of_beq : ∀ {a b : Json}, a.beq b = true → a = b
  | null, b, h | bool _, b, h | num _, b, h | str _, b, h => by cases b <;> simp_all [beq]
  | arr xs, b, h => by
    cases b with
    | arr ys => exact congrArg arr (elements_of_beq (by simpa [beq] using h))
    | _ => simp [beq] at h
  | obj xs, b, h => by
    cases b with
    | obj ys => exact congrArg obj (fields_of_beq (by simpa [beq] using h))
    | _ => simp [beq] at h

theorem elements_of_beq : ∀ {a b : List Json}, beqElements a b = true → a = b
  | [], b, h => by cases b <;> simp_all [beqElements]
  | x :: xs, b, h => by
    cases b with
    | nil => simp [beqElements] at h
    | cons y ys =>
      simp only [beqElements, Bool.and_eq_true] at h
      rw [eq_of_beq h.1, elements_of_beq h.2]

theorem fields_of_beq : ∀ {a b : List (String × Json)}, beqFields a b = true → a = b
  | [], b, h => by cases b <;> simp_all [beqFields]
  | x :: xs, b, h => by
    cases b with
    | nil => simp [beqFields] at h
    | cons y ys =>
      simp only [beqFields, Bool.and_eq_true] at h
      rw [field_of_beq h.1, fields_of_beq h.2]

theorem field_of_beq : ∀ {a b : String × Json}, beqField a b = true → a = b
  | (k, x), (l, y), h => by
    simp only [beqField, Bool.and_eq_true, beq_iff_eq] at h
    rw [h.1, eq_of_beq h.2]
end

mutual
theorem beq_self : ∀ a : Json, a.beq a = true
  | null | bool _ | num _ | str _ => by simp [beq]
  | arr xs => by simp [beq, elements_self xs]
  | obj xs => by simp [beq, fields_self xs]

theorem elements_self : ∀ xs : List Json, beqElements xs xs = true
  | [] => by simp [beqElements]
  | x :: xs => by simp [beqElements, beq_self x, elements_self xs]

theorem fields_self : ∀ xs : List (String × Json), beqFields xs xs = true
  | [] => by simp [beqFields]
  | (k, x) :: xs => by simp [beqFields, beqField, beq_self x, fields_self xs]
end

instance : DecidableEq Json := fun a b =>
  decidable_of_iff (a.beq b = true) ⟨eq_of_beq, fun h => h ▸ beq_self a⟩

end Json

/-- A `datetime` by its wall clock and UTC offset; a naive one has no offset. -/
structure Datetime where
  clock : Int
  offset : Option Int
  deriving DecidableEq

/-- The instant of an aware datetime; a naive one is read as UTC. -/
def Datetime.instant (d : Datetime) : Time := d.clock - d.offset.getD 0

/-- What a source may report as a publication date. -/
inductive RawDate where
  | none
  | datetime (d : Datetime)
  | str (s : String)
  | other
  deriving DecidableEq

structure SplitResult where
  scheme : String
  netloc : String
  path : String
  query : String
  fragment : String
  deriving DecidableEq

/-- The functions of Python's standard library and of pgvector that the code calls. `none` stands
for a `ValueError` that the caller handles, or not; `parsedate_to_datetime` has others as well. A
character that is a `surrogate` stands for a lone surrogate, which UTF-8 cannot encode; `toFloat32` is
numpy's rounding of a Python float. -/
structure PyLib where
  letters : LetterCase.CaseTable
  surrogate : Char → Bool
  casefold : String → String
  isWord : Char → Bool
  isSpace : Char → Bool
  md5 : String → Nat
  sha256 : String → String
  urlsplit : String → Option SplitResult
  urlunsplit : SplitResult → String
  parseQsl : String → List (String × String)
  urlencode : List (String × String) → String
  parsedateToDatetime : String → Except PyError Datetime
  fromisoformat : String → Option Datetime
  cosineDistance : Embedding → Embedding → Rat
  cosine : Embedding → Embedding → Rat
  toFloat32 : Rat → Rat

/-- `str.lower`. -/
def PyLib.lower (lib : PyLib) (s : String) : String := lib.letters.lower s

/-- `s.encode()` raises no error. -/
def PyLib.encodes (lib : PyLib) (s : String) : Bool := s.toList.all fun c => !lib.surrogate c

/-- What PostgreSQL stores as text: what can be encoded, without a NUL. -/
def PyLib.storesText (lib : PyLib) (s : String) : Bool := lib.encodes s && !s.toList.contains '\x00'

/-- What a `String(limit)` column holds; of blanks there may be more. -/
def fitsColumn (limit : Nat) (s : String) : Bool := (s.toList.drop limit).all (· == ' ')

/-- The microseconds of `datetime.min` and `datetime.max`, in UTC. -/
def datetimeMin : Int := -62135596800000000

def datetimeMax : Int := 253402300799999999

/-- Python's `round` to an integer: half to even. -/
def roundHalfEven (q : Rat) : Int :=
  let n := q.floor
  let r := q - n
  if r < 1 / 2 then n
  else if 1 / 2 < r then n + 1
  else if n % 2 = 0 then n else n + 1

/-- `max(0.0, min(1.0, x))`. -/
def clamp01 (x : Rat) : Rat := max 0 (min 1 x)

/-- The maximal runs of characters that meet `p`, as `re.findall` of a `+` class and `str.split`
give them. -/
def runsOf (p : Char → Bool) : List Char → List Char → List (List Char)
  | run, [] => if run.isEmpty then [] else [run]
  | run, c :: cs =>
    if p c then runsOf p (run ++ [c]) cs
    else if run.isEmpty then runsOf p [] cs
    else run :: runsOf p [] cs

/-- `str.split()`. -/
def pySplit (lib : PyLib) (s : String) : List String :=
  (runsOf (fun c => !lib.isSpace c) [] s.toList).map String.ofList

/-- `str.strip()`. -/
def pyStrip (lib : PyLib) (s : String) : String :=
  String.ofList ((s.toList.dropWhile lib.isSpace).reverse.dropWhile lib.isSpace).reverse

/-- `needle in haystack`. -/
def pyContains (needle haystack : String) : Bool :=
  haystack.toList.tails.any fun t => needle.toList.isPrefixOf t

end NewsNotifier
