import Mathlib.Data.List.Basic

namespace Utf8

/-- The bytes that an ill-formed sequence takes up after its first byte `b`: those that could still
begin a character. -/
def illFormedTail (b : UInt8) (bs : List UInt8) : Nat :=
  let within (low high : UInt8) (x : UInt8) : Bool := low ≤ x && x ≤ high
  let second : UInt8 → Bool :=
    if b = 0xE0 then within 0xA0 0xBF
    else if b = 0xED then within 0x80 0x9F
    else if b = 0xF0 then within 0x90 0xBF
    else if b = 0xF4 then within 0x80 0x8F
    else within 0x80 0xBF
  let more : Nat :=
    if within 0xE0 0xEF b then 1
    else if within 0xF0 0xF4 b then 2
    else 0
  match bs.take more with
  | [] => 0
  | x :: xs => if second x then 1 + (xs.takeWhile (within 0x80 0xBF)).length else 0

def replacement : Char := '\uFFFD'

def decodeWith : Nat → List UInt8 → List Char
  | 0, _ => []
  | _ + 1, [] => []
  | n + 1, b :: bs =>
    match (b :: bs).toByteArray.utf8DecodeChar? 0 with
    | some c => c :: decodeWith n ((b :: bs).drop c.utf8Size)
    | none => replacement :: decodeWith n (bs.drop (illFormedTail b bs))

/-- `bytes.decode("utf-8", "replace")`: each maximal ill-formed part gives one U+FFFD. -/
def decode (bs : List UInt8) : List Char := decodeWith bs.length bs

/-- `str.encode("utf-8")`. -/
def encode (cs : List Char) : List UInt8 := cs.flatMap String.utf8EncodeChar

@[simp] theorem encode_nil : encode [] = [] := rfl

@[simp] theorem encode_cons (c : Char) (cs : List Char) :
    encode (c :: cs) = String.utf8EncodeChar c ++ encode cs := rfl

theorem encode_append (cs ds : List Char) : encode (cs ++ ds) = encode cs ++ encode ds := List.flatMap_append

theorem encodeChar_ascii {c : Char} (h : c.toNat < 128) : String.utf8EncodeChar c = [UInt8.ofNat c.toNat] := by
  have small : c.val.toNat ≤ 127 := Nat.le_of_lt_succ h
  unfold String.utf8EncodeChar
  rw [if_pos small]
  rfl

theorem decodeWith_encode {n : Nat} {cs : List Char} (h : (encode cs).length ≤ n) :
    decodeWith n (encode cs) = cs := by
  induction cs generalizing n with
  | nil => cases n <;> rfl
  | cons c cs ih =>
    have size := String.length_utf8EncodeChar c
    have pos := c.utf8Size_pos
    rw [encode_cons, List.length_append] at h
    cases n with
    | zero => omega
    | succ n =>
      have found : (String.utf8EncodeChar c ++ encode cs).toByteArray.utf8DecodeChar? 0 = some c := by
        rw [List.toByteArray_append]
        exact ByteArray.utf8DecodeChar?_utf8EncodeChar_append
      have rest : (String.utf8EncodeChar c ++ encode cs).drop c.utf8Size = encode cs := by
        rw [← size, List.drop_left]
      cases bytes : String.utf8EncodeChar c ++ encode cs with
      | nil => simp [← size, (List.append_eq_nil_iff.mp bytes).1] at pos
      | cons b bs =>
        rw [bytes] at found rest
        rw [encode_cons, bytes, decodeWith, found]
        show c :: decodeWith n ((b :: bs).drop c.utf8Size) = c :: cs
        rw [rest, ih (by omega)]

theorem decode_encode (cs : List Char) : decode (encode cs) = cs :=
  decodeWith_encode (Nat.le_refl _)

theorem decode_eq_nil {bs : List UInt8} : decode bs = [] ↔ bs = [] := by
  cases bs with
  | nil => exact ⟨fun _ => rfl, fun _ => rfl⟩
  | cons b bs =>
    simp only [decode, List.length_cons, decodeWith, reduceCtorEq, iff_false]
    split <;> simp

/-- The first byte of a character is that of no other place in one. -/
theorem encodeChar_boundary {c : Char} {cs : List Char} {front : List UInt8} {x : Char} {rest : List UInt8}
    (h : encode (c :: cs) = front ++ (String.utf8EncodeChar x ++ rest)) (short : front.length < c.utf8Size) :
    front = [] := by
  have pos := x.utf8Size_pos
  have size := String.length_utf8EncodeChar c
  have size' := String.length_utf8EncodeChar x
  have inside : (encode (c :: cs))[front.length]? = (String.utf8EncodeChar c)[front.length]? := by
    rw [encode_cons, List.getElem?_append_left (by omega)]
  have first : (encode (c :: cs))[front.length]? = (String.utf8EncodeChar x)[0]? := by
    rw [h, List.getElem?_append_right (Nat.le_refl _), Nat.sub_self, List.getElem?_append_left (by omega)]
  have lead : (String.utf8EncodeChar x)[0].IsUTF8FirstByte := UInt8.isUTF8FirstByte_getElem_utf8EncodeChar.mpr rfl
  rw [inside, List.getElem?_eq_getElem (by omega), List.getElem?_eq_getElem (by omega)] at first
  rw [← Option.some.inj first] at lead
  exact List.length_eq_zero_iff.mp (UInt8.isUTF8FirstByte_getElem_utf8EncodeChar.mp lead)

theorem encodeChar_injective {c x : Char} {cs : List Char} {rest : List UInt8}
    (h : encode (c :: cs) = String.utf8EncodeChar x ++ rest) : c = x ∧ encode cs = rest := by
  have left : (encode (c :: cs)).toByteArray.utf8DecodeChar? 0 = some c := by
    rw [encode_cons, List.toByteArray_append]
    exact ByteArray.utf8DecodeChar?_utf8EncodeChar_append
  have right : (String.utf8EncodeChar x ++ rest).toByteArray.utf8DecodeChar? 0 = some x := by
    rw [List.toByteArray_append]
    exact ByteArray.utf8DecodeChar?_utf8EncodeChar_append
  rw [h, right] at left
  obtain rfl := Option.some.inj left
  exact ⟨rfl, List.append_cancel_left h⟩

/-- Text is cut where its bytes are cut beside a character. -/
theorem encode_split {cs : List Char} {front rest : List UInt8} {x : Char}
    (h : encode cs = front ++ (String.utf8EncodeChar x ++ rest)) :
    ∃ before after, cs = before ++ x :: after ∧ front = encode before ∧ rest = encode after := by
  induction cs generalizing front with
  | nil =>
    have size := congrArg List.length h
    have pos := x.utf8Size_pos
    simp [String.length_utf8EncodeChar] at size
    omega
  | cons c cs ih =>
    by_cases short : front.length < c.utf8Size
    · obtain rfl := encodeChar_boundary h short
      obtain ⟨rfl, rest⟩ := encodeChar_injective h
      exact ⟨[], cs, rfl, rfl, rest.symm⟩
    · have size := String.length_utf8EncodeChar c
      have cut : front = String.utf8EncodeChar c ++ front.drop c.utf8Size := by
        have begins : String.utf8EncodeChar c = front.take c.utf8Size := by
          have taken := congrArg (List.take c.utf8Size) h
          rw [encode_cons, ← size, List.take_left, size, List.take_append_of_le_length (by omega)] at taken
          exact taken
        conv => lhs; rw [← List.take_append_drop c.utf8Size front, ← begins]
      rw [cut, encode_cons, List.append_assoc] at h
      obtain ⟨before, after, rfl, front_eq, rest_eq⟩ := ih (List.append_cancel_left h)
      exact ⟨c :: before, after, rfl, by rw [cut, front_eq, encode_cons], rest_eq⟩

theorem encode_decodeWith {n : Nat} {bs : List UInt8} (enough : bs.length ≤ n) (h : replacement ∉ decodeWith n bs) :
    encode (decodeWith n bs) = bs := by
  induction n generalizing bs with
  | zero =>
    obtain rfl := List.length_eq_zero_iff.mp (Nat.le_zero.mp enough)
    rfl
  | succ n ih =>
    cases bs with
    | nil => rfl
    | cons b bs =>
      rw [decodeWith] at h ⊢
      cases found : (b :: bs).toByteArray.utf8DecodeChar? 0 with
      | none =>
        rw [found] at h
        exact absurd List.mem_cons_self h
      | some c =>
        rw [found] at h
        have bytes := String.toByteArray_utf8EncodeChar_of_utf8DecodeChar?_eq_some found
        have first : String.utf8EncodeChar c = (b :: bs).take c.utf8Size := by
          have data := congrArg (fun array => array.data.toList) bytes
          simpa [ByteArray.data_extract, List.data_toByteArray] using data
        have pos := c.utf8Size_pos
        show String.utf8EncodeChar c ++ encode (decodeWith n ((b :: bs).drop c.utf8Size)) = b :: bs
        rw [ih (by simp at enough ⊢; omega) (fun mem => h (List.mem_cons_of_mem _ mem)), first]
        exact List.take_append_drop _ _

/-- Nothing is lost where nothing is replaced. -/
theorem encode_decode {bs : List UInt8} (h : replacement ∉ decode bs) : encode (decode bs) = bs :=
  encode_decodeWith (Nat.le_refl _) h

example : decode [0xF0, 0x9F, 0x41, 0xC3, 0xA9, 0xFF] =
    [replacement, 'A', 'é', replacement] := by decide +kernel

end Utf8
