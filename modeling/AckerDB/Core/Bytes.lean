import AckerDB.Lib.Base64

/-!
# Strict base64 of byte values

`bytesToBase64` and `base64ToBytes`, written out and by way of the engine.  A text is the list of
its UTF-16 code units.

* `fallback_eq_some_iff` — the written-out reader accepts what the writer writes, and only that;
* `nativePath_eq_some_iff` — so does the engine's: a skipped blank changes the decoded length.
-/

namespace AckerDB

namespace Bytes

open List

/-- The code units of a string. -/
abbrev Text := List UInt16

/-- `BASE64_PAD`. -/
def pad : UInt16 := 61

/-- The code unit of an ASCII character. -/
def unit (c : Char) : UInt16 := .ofNat c.toNat

/-- `BASE64_ALPHABET[n]`. -/
def digit (n : Nat) : UInt16 := unit (Base64.charOf n)

/-- `pairs`: the two digits of a 12-bit value. -/
def pair (n : Nat) : Text := [digit (n / 64), digit (n % 64)]

/-- The loop of `bytesToBase64` over groups of three bytes, and the digits of its tail. -/
def digits : List UInt8 → Text
  | [] => []
  | [a] => pair (a.toNat * 16)
  | [a, b] =>
    let group := (a.toNat * 256 + b.toNat) * 4
    pair (group / 64) ++ [digit (group % 64)]
  | a :: b :: c :: rest =>
    let group := a.toNat * 65536 + b.toNat * 256 + c.toNat
    pair (group / 4096) ++ pair (group % 4096) ++ digits rest

/-- `bytesToBase64`, written out. -/
def bytesToBase64 (bytes : List UInt8) : Text :=
  digits bytes ++
    if bytes.length % 3 = 1 then [pad, pad] else if bytes.length % 3 = 2 then [pad] else []

/-- `base64Code`. -/
def base64Code (u : UInt16) : Option Nat :=
  if u < 128 then Base64.sextet (Char.ofNat u.toNat) else none

/-- The loop of `base64ToBytes` over the digits, and its tail cases. -/
def readDigits : Text → Option (List UInt8)
  | [] => some []
  | [_] => none
  | [a, b] => do
    let group := (← base64Code a) * 64 + (← base64Code b)
    if group % 16 ≠ 0 then none else some [.ofNat (group / 16)]
  | [a, b, c] => do
    let group := (← base64Code a) * 4096 + (← base64Code b) * 64 + (← base64Code c)
    if group % 4 ≠ 0 then none else some [.ofNat (group / 1024), .ofNat (group / 4 % 256)]
  | a :: b :: c :: d :: rest => do
    let group := (← base64Code a) * 262144 + (← base64Code b) * 4096 + (← base64Code c) * 64 +
      (← base64Code d)
    let others ← readDigits rest
    some (.ofNat (group / 65536) :: .ofNat (group / 256 % 256) :: .ofNat (group % 256) :: others)

/-- How many of the last two units are padding. -/
def padding (text : Text) : Nat :=
  if text.getLast? = some pad then if text.dropLast.getLast? = some pad then 2 else 1 else 0

/-- `byteLength`. -/
def byteLength (text : Text) : Nat := text.length / 4 * 3 - padding text

/-- `base64ToBytes`, written out. -/
def fallback (text : Text) : Option (List UInt8) :=
  if text.length % 4 ≠ 0 then none else readDigits (text.take (text.length - padding text))

/-- `base64ToBytes` by way of the engine's `fromBase64`. -/
def nativePath (native : Text → Option (List UInt8)) (text : Text) : Option (List UInt8) :=
  if text.length % 4 ≠ 0 then none
  else (native text).filter fun bytes => bytes.length = byteLength text

/-- Standard base64, as the engine's `toBase64` writes it. -/
def standard (bytes : List UInt8) : Text := (Base64.encode bytes).map unit

/-- The ASCII whitespace a strict decoder of the engine skips. -/
def isSpace (u : UInt16) : Bool := u ∈ [9, 10, 12, 13, 32]

/-- Strict decoding, up to ASCII whitespace: the inverse of the standard encoding. -/
def Strict (native : Text → Option (List UInt8)) : Prop :=
  ∀ text bytes, native text = some bytes ↔ text.filter (!isSpace ·) = standard bytes

/-! ## The digits -/

theorem base64Code_eq_some_iff {u : UInt16} {n : Nat} :
    base64Code u = some n ↔ n < 64 ∧ u = digit n := by
  have hwritten : ∀ m : Fin 64, base64Code (digit m) = some m.val := by decide +kernel
  constructor
  · intro h
    unfold base64Code at h
    split_ifs at h with hlt
    have hu : u.toNat < 128 := hlt
    obtain ⟨hn, hfound, -⟩ := findIdx?_eq_some_iff_getElem.1 h
    refine ⟨hn, ?_⟩
    rw [digit, Base64.charOf, getD_eq_getElem _ _ hn, of_decide_eq_true hfound, unit,
      Char.toNat_ofNat, if_pos (.inl (by omega)), UInt16.ofNat_toNat]
  · rintro ⟨hlt, rfl⟩
    exact hwritten ⟨n, hlt⟩

theorem toNat_ofNat {n : Nat} (h : n < 256) : (UInt8.ofNat n).toNat = n := by
  simpa using h

theorem pair_eq (x : Nat) {y n : Nat} (hy : y < 64) (h : n = x * 64 + y) :
    pair n = [digit x, digit y] := by
  rw [pair, show n / 64 = x by omega, show n % 64 = y by omega]

theorem readDigits_digits (bytes : List UInt8) : readDigits (digits bytes) = some bytes := by
  have hcode {n : Nat} (h : n < 64) := base64Code_eq_some_iff.2 ⟨h, rfl⟩
  induction bytes using digits.induct with
  | case1 => rfl
  | case2 a =>
    have ha := a.toNat_lt
    simp (disch := omega) only [digits, pair, readDigits, hcode, Option.bind_eq_bind,
      Option.bind_some]
    rw [if_neg (by omega), Base64.ofNat_eq (a := a) (by omega)]
  | case3 a b =>
    have ha := a.toNat_lt
    have hb := b.toNat_lt
    simp (disch := omega) only [digits, pair, cons_append, nil_append, readDigits, hcode,
      Option.bind_eq_bind, Option.bind_some]
    rw [if_neg (by omega), Base64.ofNat_eq (a := a) (by omega), Base64.ofNat_eq (a := b) (by omega)]
  | case4 a b c rest ih =>
    have ha := a.toNat_lt
    have hb := b.toNat_lt
    have hc := c.toNat_lt
    simp (disch := omega) only [digits, pair, cons_append, nil_append, readDigits, hcode, ih,
      Option.bind_eq_bind, Option.bind_some]
    rw [Base64.ofNat_eq (a := a) (by omega), Base64.ofNat_eq (a := b) (by omega),
      Base64.ofNat_eq (a := c) (by omega)]

theorem eq_digits_of_readDigits {data : Text} {bytes : List UInt8}
    (h : readDigits data = some bytes) : data = digits bytes := by
  induction data using readDigits.induct generalizing bytes with
  | case1 =>
    cases h
    rfl
  | case2 => cases h
  | case3 =>
    simp only [readDigits, Option.bind_eq_bind, Option.bind_eq_some_iff,
      base64Code_eq_some_iff] at h
    obtain ⟨x, ⟨hx, rfl⟩, y, ⟨hy, rfl⟩, h⟩ := h
    split_ifs at h with hlow
    cases h
    rw [digits, toNat_ofNat (by omega), pair_eq x hy (by omega)]
  | case4 =>
    simp only [readDigits, Option.bind_eq_bind, Option.bind_eq_some_iff,
      base64Code_eq_some_iff] at h
    obtain ⟨x, ⟨hx, rfl⟩, y, ⟨hy, rfl⟩, z, ⟨hz, rfl⟩, h⟩ := h
    split_ifs at h with hlow
    cases h
    rw [digits, toNat_ofNat (by omega), toNat_ofNat (by omega), pair_eq x hy (by omega)]
    congr 4
    omega
  | case5 _ _ _ _ _ ih =>
    simp only [readDigits, Option.bind_eq_bind, Option.bind_eq_some_iff,
      base64Code_eq_some_iff] at h
    obtain ⟨x, ⟨hx, rfl⟩, y, ⟨hy, rfl⟩, z, ⟨hz, rfl⟩, w, ⟨hw, rfl⟩, others, hothers, h⟩ := h
    cases h
    rw [digits, toNat_ofNat (by omega), toNat_ofNat (by omega), toNat_ofNat (by omega),
      pair_eq x hy (by omega), pair_eq z hw (by omega), ih hothers]
    rfl

/-! ## The padding -/

variable {text : Text} {bytes : List UInt8}

theorem length_digits (bytes : List UInt8) :
    (digits bytes).length = bytes.length + (bytes.length + 2) / 3 := by
  induction bytes using digits.induct with
  | case4 _ _ _ _ ih =>
    simp only [digits, pair, length_append, length_cons, length_nil, ih]
    omega
  | _ => simp [digits, pair]

theorem bytesToBase64_eq (bytes : List UInt8) : bytesToBase64 bytes =
    digits bytes ++ replicate ((bytes.length + 2) / 3 * 3 - bytes.length) pad := by
  have hp : (bytes.length + 2) / 3 * 3 - bytes.length =
      if bytes.length % 3 = 1 then 2 else if bytes.length % 3 = 2 then 1 else 0 := by
    split_ifs <;> omega
  rw [bytesToBase64, hp]
  split_ifs <;> rfl

theorem digit_ne (n : Nat) : digit n ≠ pad ∧ isSpace (digit n) = false := by
  have hall : ∀ m : Fin 64, digit m ≠ pad ∧ isSpace (digit m) = false := by decide +kernel
  rcases Nat.lt_or_ge n 64 with hlt | hge
  · exact hall ⟨n, hlt⟩
  · rw [digit, Base64.charOf, getD_eq_default _ _ hge]
    decide

theorem digits_ne {u : UInt16} (h : u ∈ digits bytes) : u ≠ pad ∧ isSpace u = false := by
  induction bytes using digits.induct with
  | case1 => cases h
  | _ =>
    simp only [digits, pair, mem_append, mem_cons, not_mem_nil, or_false] at h
    grind [digit_ne]

/-- At most two units are padding, and they are the last. -/
theorem exists_padding (text : Text) :
    padding text ≤ 2 ∧ ∃ data, text = data ++ replicate (padding text) pad := by
  unfold padding
  split_ifs with hlast hbefore
  · obtain ⟨front, rfl⟩ := getLast?_eq_some_iff.1 hlast
    rw [dropLast_concat] at hbefore
    obtain ⟨data, rfl⟩ := getLast?_eq_some_iff.1 hbefore
    exact ⟨le_rfl, data, by simp [replicate]⟩
  · obtain ⟨data, rfl⟩ := getLast?_eq_some_iff.1 hlast
    exact ⟨by omega, data, rfl⟩
  · exact ⟨by omega, text, by simp⟩

theorem padding_bytesToBase64 (bytes : List UInt8) :
    padding (bytesToBase64 bytes) = (bytes.length + 2) / 3 * 3 - bytes.length := by
  have hlast : (digits bytes).getLast? ≠ some pad :=
    fun h => (digits_ne (mem_of_getLast? h)).1 rfl
  have hp : (bytes.length + 2) / 3 * 3 - bytes.length ≤ 2 := by omega
  rw [bytesToBase64_eq]
  interval_cases (bytes.length + 2) / 3 * 3 - bytes.length <;> simp [padding, hlast, replicate]

theorem length_bytesToBase64 (bytes : List UInt8) :
    (bytesToBase64 bytes).length = (bytes.length + 2) / 3 * 4 := by
  rw [bytesToBase64_eq, length_append, length_replicate, length_digits]
  omega

theorem byteLength_bytesToBase64 (bytes : List UInt8) :
    byteLength (bytesToBase64 bytes) = bytes.length := by
  rw [byteLength, padding_bytesToBase64, length_bytesToBase64]
  omega

theorem fallback_eq_some_iff : fallback text = some bytes ↔ text = bytesToBase64 bytes := by
  constructor
  · intro h
    unfold fallback at h
    split_ifs at h with hlength
    obtain ⟨hp, data, hdata⟩ := exists_padding text
    generalize padding text = p at *
    subst hdata
    rw [length_append, length_replicate] at hlength h
    rw [Nat.add_sub_cancel, take_left] at h
    obtain rfl := eq_digits_of_readDigits h
    rw [length_digits] at hlength
    rw [bytesToBase64_eq, show p = (bytes.length + 2) / 3 * 3 - bytes.length by omega]
  · rintro rfl
    have hlength := length_bytesToBase64 bytes
    rw [fallback, if_neg (by omega), padding_bytesToBase64, bytesToBase64_eq, length_append,
      length_replicate, Nat.add_sub_cancel, take_left, readDigits_digits]

/-! ## The engine's path -/

theorem standard_eq (bytes : List UInt8) : standard bytes = bytesToBase64 bytes := by
  unfold standard bytesToBase64
  induction bytes using digits.induct with
  | case4 a b c rest ih =>
    have hlength : (a :: b :: c :: rest).length % 3 = rest.length % 3 := by
      simp only [length_cons]
      omega
    simp only [Base64.encode, digits, pair, map_cons, cons_append, nil_append, ih, hlength]
    generalize a.toNat * 65536 + b.toNat * 256 + c.toNat = group
    rw [Nat.div_div_eq_div_mul, show group % 4096 / 64 = group / 64 % 64 by omega,
      show group % 4096 % 64 = group % 64 by omega]
    rfl
  | case3 =>
    simp only [Base64.encode, digits, pair, map_cons, Nat.div_div_eq_div_mul]
    rfl
  | _ => rfl

theorem nativePath_eq_some_iff {native : Text → Option (List UInt8)} (hnative : Strict native) :
    nativePath native text = some bytes ↔ text = bytesToBase64 bytes := by
  constructor
  · intro h
    unfold nativePath at h
    split_ifs at h with hlength
    obtain ⟨hread, hbytes⟩ := Option.filter_eq_some_iff.1 h
    rw [hnative, standard_eq] at hread
    have hwritten := congrArg length hread
    have hle := length_filter_le (!isSpace ·) text
    have hp := (exists_padding text).1
    rw [length_bytesToBase64] at hwritten
    rw [decide_eq_true_eq, byteLength] at hbytes
    -- a skipped blank would leave a shorter array
    have hall : (text.filter (!isSpace ·)).length = text.length := by omega
    rw [← hread, filter_eq_self.2 (length_filter_eq_length_iff.1 hall)]
  · rintro rfl
    have hlength := length_bytesToBase64 bytes
    have hkept : (bytesToBase64 bytes).filter (!isSpace ·) = bytesToBase64 bytes := by
      rw [filter_eq_self, bytesToBase64_eq, forall_mem_append]
      refine ⟨fun u hu => by simp [(digits_ne hu).2], fun u hu => ?_⟩
      rw [eq_of_mem_replicate hu]
      rfl
    rw [nativePath, if_neg (by omega), (hnative _ bytes).2 (hkept.trans (standard_eq bytes).symm)]
    simp [byteLength_bytesToBase64]

/-- **The two paths are one strict codec.**  They accept the texts the writer writes, return the
bytes it was given, and the array the written-out reader allocates has their number. -/
theorem strict_base64 {native : Text → Option (List UInt8)} (hnative : Strict native) :
    (∀ text, nativePath native text = fallback text) ∧
      (∀ bytes, standard bytes = bytesToBase64 bytes) ∧
      (∀ text, (fallback text).isSome ↔ text ∈ Set.range bytesToBase64) ∧
      (∀ bytes, fallback (bytesToBase64 bytes) = some bytes) ∧
      ∀ text bytes, fallback text = some bytes →
        bytesToBase64 bytes = text ∧ bytes.length = byteLength text := by
  refine ⟨fun text => ?_, standard_eq, fun text => ?_, fun bytes => fallback_eq_some_iff.2 rfl,
    fun text bytes h => ?_⟩
  · refine Option.ext fun bytes => ?_
    rw [nativePath_eq_some_iff hnative, fallback_eq_some_iff]
  · rw [Option.isSome_iff_exists]
    exact exists_congr fun bytes => fallback_eq_some_iff.trans eq_comm
  · rw [fallback_eq_some_iff] at h
    rw [h, byteLength_bytesToBase64]
    exact ⟨rfl, rfl⟩

/-- A strict decoder that skips whitespace. -/
def skipping (text : Text) : Option (List UInt8) := fallback (text.filter (!isSpace ·))

theorem strict_base64_skipping :
    Strict skipping ∧ nativePath skipping [84, 81, 61, 61] = some [77] := by
  have hstrict : Strict skipping := fun text bytes => by
    rw [skipping, fallback_eq_some_iff, standard_eq]
  exact ⟨hstrict, ((strict_base64 hstrict).1 _).trans (by decide +kernel)⟩

end Bytes

end AckerDB
