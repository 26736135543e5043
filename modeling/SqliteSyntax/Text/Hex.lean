/-! # Hexadecimal text

Bytes as pairs of uppercase hexadecimal digits, high half first. -/
namespace SqliteSyntax.Hex
set_option autoImplicit false

/-- The uppercase digit of a value below sixteen. -/
def digit (n : Nat) : Char :=
  if n < 10 then Char.ofNat ('0'.toNat + n) else Char.ofNat ('A'.toNat + (n - 10))

/-- Two digits for one byte. -/
def ofByte (b : UInt8) : List Char :=
  [digit (b.toNat / 16), digit (b.toNat % 16)]

/-- The digits of a byte string. -/
def ofBytes (bytes : List UInt8) : List Char :=
  bytes.flatMap ofByte

/-! ## Reading -/

/-- The value of a digit of either case. -/
def value? (c : Char) : Option Nat :=
  if '0' ≤ c ∧ c ≤ '9' then some (c.toNat - '0'.toNat)
  else if 'A' ≤ c ∧ c ≤ 'F' then some (c.toNat - 'A'.toNat + 10)
  else if 'a' ≤ c ∧ c ≤ 'f' then some (c.toNat - 'a'.toNat + 10)
  else none

/-- The bytes that pairs of digits stand for. -/
def toBytes? : List Char → Option (List UInt8)
  | [] => some []
  | [_] => none
  | high :: low :: rest => do
    let h ← value? high
    let l ← value? low
    let bytes ← toBytes? rest
    return UInt8.ofNat (h * 16 + l) :: bytes

/-! ## Writing, then reading -/

theorem value?_digit : ∀ n : Fin 16, value? (digit n) = some n.val := by
  decide

theorem toBytes?_ofByte (b : UInt8) (rest : List Char) :
    toBytes? (ofByte b ++ rest) = (toBytes? rest).map (b :: ·) := by
  have hb : b.toNat < 256 := b.toNat_lt
  have high := value?_digit ⟨b.toNat / 16, by omega⟩
  have low := value?_digit ⟨b.toNat % 16, by omega⟩
  have whole : UInt8.ofNat (b.toNat / 16 * 16 + b.toNat % 16) = b := by
    rw [Nat.div_add_mod', UInt8.ofNat_toNat]
  simp only [ofByte, List.cons_append, List.nil_append, toBytes?, high, low]
  cases toBytes? rest with
  | none => rfl
  | some bytes => exact congrArg (fun x => some (x :: bytes)) whole

/-- The bytes of the digits of a byte string are that byte string. -/
theorem toBytes?_ofBytes (bytes : List UInt8) : toBytes? (ofBytes bytes) = some bytes := by
  induction bytes with
  | nil => rfl
  | cons b rest ih =>
    have h : ofBytes (b :: rest) = ofByte b ++ ofBytes rest := rfl
    rw [h, toBytes?_ofByte, ih]
    rfl

end SqliteSyntax.Hex
