import Mathlib

/-!
# Padded base64 over byte lists

The standard base64 alphabet, written and read in groups: three bytes become
four characters, and a final group of one or two bytes is completed by `'='`
padding.  The reader is strict: it accepts padding only at the very end, only
on a group whose unused bits are zero, and no character outside the alphabet.

* `sextet_charOf` — the alphabet is read back position by position;
* `decode_encode` — the reader recovers exactly the bytes the writer was given.
-/

set_option maxRecDepth 10000

namespace Base64

/-- The sixty-four digits, in order of their value. -/
def alphabet : List Char :=
  "ABCDEFGHIJKLMNOPQRSTUVWXYZabcdefghijklmnopqrstuvwxyz0123456789+/".toList

/-- The digit of a six-bit value. -/
def charOf (n : Nat) : Char := alphabet.getD n 'A'

/-- The value of a digit, or nothing for a character outside the alphabet. -/
def sextet (c : Char) : Option Nat := alphabet.findIdx? (· = c)

/-- Write bytes as padded base64. -/
def encode : List UInt8 → List Char
  | [] => []
  | [a] =>
    let group := a.toNat * 16
    [charOf (group / 64), charOf (group % 64), '=', '=']
  | [a, b] =>
    let group := (a.toNat * 256 + b.toNat) * 4
    [charOf (group / 4096), charOf (group / 64 % 64), charOf (group % 64), '=']
  | a :: b :: c :: rest =>
    let group := a.toNat * 65536 + b.toNat * 256 + c.toNat
    charOf (group / 262144) :: charOf (group / 4096 % 64) ::
      charOf (group / 64 % 64) :: charOf (group % 64) :: encode rest

/-- Read a final group that carries one byte; the four low bits must be zero. -/
def decodeOne (a b : Char) : Option (List UInt8) := do
  let x ← sextet a
  let y ← sextet b
  let group := x * 64 + y
  if group % 16 = 0 then some [UInt8.ofNat (group / 16)] else none

/-- Read a final group that carries two bytes; the two low bits must be zero. -/
def decodeTwo (a b c : Char) : Option (List UInt8) := do
  let x ← sextet a
  let y ← sextet b
  let z ← sextet c
  let group := x * 4096 + y * 64 + z
  if group % 4 = 0 then some [UInt8.ofNat (group / 1024), UInt8.ofNat (group / 4 % 256)] else none

/-- Read a full group of three bytes. -/
def decodeThree (a b c d : Char) : Option (List UInt8) := do
  let x ← sextet a
  let y ← sextet b
  let z ← sextet c
  let w ← sextet d
  let group := x * 262144 + y * 4096 + z * 64 + w
  some [UInt8.ofNat (group / 65536), UInt8.ofNat (group / 256 % 256), UInt8.ofNat (group % 256)]

/-- Read padded base64.  Padding is recognised in the last group only. -/
def decode : List Char → Option (List UInt8)
  | [] => some []
  | a :: b :: c :: d :: rest =>
    if rest = [] ∧ d = '=' then
      if c = '=' then decodeOne a b else decodeTwo a b c
    else do
      let head ← decodeThree a b c d
      let tail ← decode rest
      some (head ++ tail)
  | _ => none

/-! ## The alphabet is read back -/

theorem sextet_charOf {n : Nat} (h : n < 64) : sextet (charOf n) = some n := by
  have key : ∀ m : Fin 64, sextet (charOf m.val) = some m.val := by decide
  exact key ⟨n, h⟩

theorem charOf_ne_pad {n : Nat} (h : n < 64) : charOf n ≠ '=' := by
  have key : ∀ m : Fin 64, charOf m.val ≠ '=' := by decide
  exact key ⟨n, h⟩

theorem ofNat_eq {a : UInt8} {n : Nat} (h : n = a.toNat) : UInt8.ofNat n = a := by
  subst h
  exact UInt8.ofNat_toNat

/-! ## Reading one group back -/

theorem decodeOne_charOf (a : UInt8) :
    decodeOne (charOf (a.toNat * 16 / 64)) (charOf (a.toNat * 16 % 64)) = some [a] := by
  have ha := a.toNat_lt
  simp (disch := omega) only [decodeOne, sextet_charOf, Option.bind_eq_bind, Option.bind_some]
  rw [if_pos (by omega), ofNat_eq (a := a) (by omega)]

theorem decodeTwo_charOf (a b : UInt8) :
    decodeTwo (charOf ((a.toNat * 256 + b.toNat) * 4 / 4096))
      (charOf ((a.toNat * 256 + b.toNat) * 4 / 64 % 64))
      (charOf ((a.toNat * 256 + b.toNat) * 4 % 64)) = some [a, b] := by
  have ha := a.toNat_lt
  have hb := b.toNat_lt
  simp (disch := omega) only [decodeTwo, sextet_charOf, Option.bind_eq_bind, Option.bind_some]
  rw [if_pos (by omega), ofNat_eq (a := a) (by omega), ofNat_eq (a := b) (by omega)]

theorem decodeThree_charOf (a b c : UInt8) :
    decodeThree (charOf ((a.toNat * 65536 + b.toNat * 256 + c.toNat) / 262144))
      (charOf ((a.toNat * 65536 + b.toNat * 256 + c.toNat) / 4096 % 64))
      (charOf ((a.toNat * 65536 + b.toNat * 256 + c.toNat) / 64 % 64))
      (charOf ((a.toNat * 65536 + b.toNat * 256 + c.toNat) % 64)) = some [a, b, c] := by
  have ha := a.toNat_lt
  have hb := b.toNat_lt
  have hc := c.toNat_lt
  simp (disch := omega) only [decodeThree, sextet_charOf, Option.bind_eq_bind, Option.bind_some]
  rw [ofNat_eq (a := a) (by omega), ofNat_eq (a := b) (by omega), ofNat_eq (a := c) (by omega)]

/-! ## The round trip -/

/-- **The reader recovers what the writer wrote.** -/
theorem decode_encode (bytes : List UInt8) : decode (encode bytes) = some bytes := by
  induction bytes using encode.induct with
  | case1 => rfl
  | case2 => simp [encode, decode, decodeOne_charOf]
  | case3 a b =>
    have hne : charOf ((a.toNat * 256 + b.toNat) * 4 % 64) ≠ '=' := charOf_ne_pad (by omega)
    simp [encode, decode, hne, decodeTwo_charOf]
  | case4 a b c rest ih =>
    have hne : charOf ((a.toNat * 65536 + b.toNat * 256 + c.toNat) % 64) ≠ '=' :=
      charOf_ne_pad (by omega)
    simp [encode, decode, hne, decodeThree_charOf, ih]

end Base64
