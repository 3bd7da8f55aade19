import ReceiptReview.Java.Text

/-!
# Base64

`Base64.getEncoder()`: three bytes become four digits of 64, the first digit being the
highest, and `=` fills the last group.  `decode` reads such a text back, and the text of an
encoding has no character outside of the alphabet and the filler.
-/

namespace Java

namespace Base64

def alphabet : JString :=
  .ofString "ABCDEFGHIJKLMNOPQRSTUVWXYZabcdefghijklmnopqrstuvwxyz0123456789+/"

def padding : UInt16 := 0x3D

/-- The character of a digit. -/
def digit (n : ℕ) : UInt16 :=
  alphabet.getD n padding

/-- The digit of a character. -/
def value (unit : UInt16) : Option ℕ :=
  alphabet.idxOf? unit

/-- `Base64.getEncoder().encodeToString(bytes)`. -/
def encode : List UInt8 → JString
  | [] => []
  | [a] => [digit (a.toNat / 4), digit (a.toNat % 4 * 16), padding, padding]
  | [a, b] =>
      [digit (a.toNat / 4), digit (a.toNat % 4 * 16 + b.toNat / 16), digit (b.toNat % 16 * 4),
        padding]
  | a :: b :: c :: rest =>
      digit (a.toNat / 4) :: digit (a.toNat % 4 * 16 + b.toNat / 16) ::
        digit (b.toNat % 16 * 4 + c.toNat / 64) :: digit (c.toNat % 64) :: encode rest

/-- The bytes of a text in groups of four characters. -/
def decode : JString → Option (List UInt8)
  | [] => some []
  | w :: x :: y :: z :: rest => do
      let first ← value w
      let second ← value x
      if y = padding then return [(first * 4 + second / 16).toUInt8]
      else
        let third ← value y
        if z = padding then
          return [(first * 4 + second / 16).toUInt8, (second % 16 * 16 + third / 4).toUInt8]
        else
          let fourth ← value z
          let bytes ← decode rest
          return (first * 4 + second / 16).toUInt8 :: (second % 16 * 16 + third / 4).toUInt8 ::
            (third % 4 * 64 + fourth).toUInt8 :: bytes
  | _ => none

theorem value_digit {n : ℕ} (h : n < 64) : value (digit n) = some n := by
  have hall : ∀ n < 64, value (digit n) = some n := by decide +kernel
  exact hall n h

theorem digit_ne_padding {n : ℕ} (h : n < 64) : digit n ≠ padding := by
  have hall : ∀ n < 64, digit n ≠ padding := by decide +kernel
  exact hall n h

/-- The bytes of a group, from its digits. -/
theorem first_byte (a : UInt8) {high : ℕ} (h : high < 16) :
    (a.toNat / 4 * 4 + (a.toNat % 4 * 16 + high) / 16).toUInt8 = a := by
  have hsame : a.toNat / 4 * 4 + (a.toNat % 4 * 16 + high) / 16 = a.toNat := by omega
  rw [hsame]
  exact UInt8.ofNat_toNat

theorem second_byte (b : UInt8) (low : ℕ) {high : ℕ} (h : high < 4) :
    ((low * 16 + b.toNat / 16) % 16 * 16 + (b.toNat % 16 * 4 + high) / 4).toUInt8 = b := by
  have hb := b.toNat_lt
  have hsame : (low * 16 + b.toNat / 16) % 16 * 16 + (b.toNat % 16 * 4 + high) / 4 = b.toNat := by
    omega
  rw [hsame]
  exact UInt8.ofNat_toNat

theorem third_byte (c : UInt8) (low : ℕ) :
    ((low * 4 + c.toNat / 64) % 4 * 64 + c.toNat % 64).toUInt8 = c := by
  have hc := c.toNat_lt
  have hsame : (low * 4 + c.toNat / 64) % 4 * 64 + c.toNat % 64 = c.toNat := by omega
  rw [hsame]
  exact UInt8.ofNat_toNat

/-- An encoding reads back as the bytes that it was made of. -/
theorem decode_encode (bytes : List UInt8) : decode (encode bytes) = some bytes := by
  induction bytes using encode.induct with
  | case1 => rfl
  | case2 a =>
      have ha := a.toNat_lt
      rw [encode, decode, value_digit (by omega), value_digit (by omega)]
      exact congrArg (fun byte => some [byte]) (first_byte a (by omega : 0 < 16))
  | case3 a b =>
      have ha := a.toNat_lt
      have hb := b.toNat_lt
      have hthird : digit (b.toNat % 16 * 4) ≠ padding := digit_ne_padding (by omega)
      rw [encode, decode, value_digit (by omega), value_digit (by omega), value_digit (by omega)]
      simp only [Option.bind_eq_bind, Option.bind_some, if_neg hthird, if_true]
      rw [first_byte a (by omega)]
      exact congrArg (fun byte => some [a, byte]) (second_byte b _ (by omega : 0 < 4))
  | case4 a b c rest ih =>
      have ha := a.toNat_lt
      have hb := b.toNat_lt
      have hc := c.toNat_lt
      have hthird : digit (b.toNat % 16 * 4 + c.toNat / 64) ≠ padding := digit_ne_padding (by omega)
      have hfourth : digit (c.toNat % 64) ≠ padding := digit_ne_padding (by omega)
      rw [encode, decode, value_digit (by omega), value_digit (by omega), value_digit (by omega),
        value_digit (by omega), ih]
      simp only [Option.bind_eq_bind, Option.bind_some, if_neg hthird, if_neg hfourth]
      rw [first_byte a (by omega), second_byte b _ (by omega), third_byte c]
      rfl

theorem encode_injective : Function.Injective encode := fun bytes bytes' h => by
  have hdecoded := congrArg decode h
  rw [decode_encode, decode_encode] at hdecoded
  exact Option.some.inj hdecoded

theorem digit_mem (n : ℕ) : digit n ∈ padding :: alphabet := by
  rw [digit, List.getD_eq_getElem?_getD]
  cases h : alphabet[n]? with
  | none => exact List.mem_cons_self
  | some unit => exact List.mem_cons_of_mem _ (List.mem_of_getElem? h)

/-- The characters of an encoding. -/
theorem mem_encode {bytes : List UInt8} {unit : UInt16} (h : unit ∈ encode bytes) :
    unit ∈ padding :: alphabet := by
  induction bytes using encode.induct with
  | case1 => exact absurd h List.not_mem_nil
  | case2 a | case3 a b =>
      simp only [encode, List.mem_cons, List.not_mem_nil, or_false] at h
      rcases h with rfl | rfl | rfl | rfl <;> first | exact digit_mem _ | exact List.mem_cons_self
  | case4 a b c rest ih =>
      simp only [encode, List.mem_cons] at h
      rcases h with rfl | rfl | rfl | rfl | h
      · exact digit_mem _
      · exact digit_mem _
      · exact digit_mem _
      · exact digit_mem _
      · exact ih h

end Base64

end Java
