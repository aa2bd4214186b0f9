import Mathlib.Tactic.IntervalCases

/-! Base64 with the standard alphabet: the encoder, and a lenient decoder, which passes over
characters outside the alphabet and over padding that comes too early.  The decoder inverts the
encoder. -/

namespace TaskScheduler.Lib.Base64

/-- The character of six bits. -/
def sextetChar (n : Nat) : Char :=
  if n < 26 then Char.ofNat (0x41 + n)
  else if n < 52 then Char.ofNat (0x61 + (n - 26))
  else if n < 62 then Char.ofNat (0x30 + (n - 52))
  else if n = 62 then '+'
  else '/'

/-- The six bits of a character of the alphabet. -/
def sextet? (c : Char) : Option Nat :=
  if 0x41 ≤ c.toNat ∧ c.toNat ≤ 0x5a then some (c.toNat - 0x41)
  else if 0x61 ≤ c.toNat ∧ c.toNat ≤ 0x7a then some (c.toNat - 0x61 + 26)
  else if 0x30 ≤ c.toNat ∧ c.toNat ≤ 0x39 then some (c.toNat - 0x30 + 52)
  else if c = '+' then some 62
  else if c = '/' then some 63
  else none

/-- Three bytes make four characters; the last ones are padded. -/
def encode : List UInt8 → List Char
  | a :: b :: c :: bs =>
    sextetChar (a.toNat / 4) :: sextetChar (a.toNat % 4 * 16 + b.toNat / 16) ::
      sextetChar (b.toNat % 16 * 4 + c.toNat / 64) :: sextetChar (c.toNat % 64) :: encode bs
  | [a, b] =>
    [sextetChar (a.toNat / 4), sextetChar (a.toNat % 4 * 16 + b.toNat / 16),
      sextetChar (b.toNat % 16 * 4), '=']
  | [a] => [sextetChar (a.toNat / 4), sextetChar (a.toNat % 4 * 16), '=', '=']
  | [] => []

/-- The decoder, at a position in a group of four, with the bits that are left over and the padding
since the last character of the alphabet.  Padding that completes a group ends the text. -/
def decodeFrom (position left pads : Nat) : List Char → Option (List UInt8)
  | [] => if position = 0 then some [] else none
  | c :: cs =>
    if c = '=' then
      if 2 ≤ position then
        if 4 ≤ position + (pads + 1) then some [] else decodeFrom position left (pads + 1) cs
      else decodeFrom position left pads cs
    else
      match sextet? c with
      | none => decodeFrom position left pads cs
      | some n =>
        match position with
        | 0 => decodeFrom 1 n 0 cs
        | 1 => (decodeFrom 2 (n % 16) 0 cs).map (UInt8.ofNat (left * 4 + n / 16) :: ·)
        | 2 => (decodeFrom 3 (n % 4) 0 cs).map (UInt8.ofNat (left * 16 + n / 4) :: ·)
        | _ => (decodeFrom 0 0 0 cs).map (UInt8.ofNat (left * 64 + n) :: ·)

def decode (cs : List Char) : Option (List UInt8) := decodeFrom 0 0 0 cs

theorem sextet_sextetChar : ∀ n < 64, sextet? (sextetChar n) = some n ∧ sextetChar n ≠ '=' ∧
    (sextetChar n).toNat < 0x80 := by
  decide +kernel

section Step

variable {n left pads : Nat} {cs : List Char}

/-- A character of the alphabet is read as its six bits. -/
theorem decodeFrom_sextet (position : Nat) (hn : n < 64) :
    decodeFrom position left pads (sextetChar n :: cs) =
      match position with
      | 0 => decodeFrom 1 n 0 cs
      | 1 => (decodeFrom 2 (n % 16) 0 cs).map (UInt8.ofNat (left * 4 + n / 16) :: ·)
      | 2 => (decodeFrom 3 (n % 4) 0 cs).map (UInt8.ofNat (left * 16 + n / 4) :: ·)
      | _ => (decodeFrom 0 0 0 cs).map (UInt8.ofNat (left * 64 + n) :: ·) := by
  obtain ⟨hsextet, hpad, -⟩ := sextet_sextetChar n hn
  rw [decodeFrom, if_neg hpad, hsextet]

theorem ofNat_toNat_eq {m : Nat} {a : UInt8} (h : m = a.toNat) : UInt8.ofNat m = a := by
  rw [h, UInt8.ofNat_toNat]

theorem decodeFrom_encode (bs : List UInt8) (left pads : Nat) :
    decodeFrom 0 left pads (encode bs) = some bs := by
  induction bs using encode.induct generalizing left pads with
  | case1 a b c bs ih =>
    have ha := a.toNat_lt
    have hb := b.toNat_lt
    have hc := c.toNat_lt
    rw [encode, decodeFrom_sextet 0 (by omega), decodeFrom_sextet 1 (by omega),
      decodeFrom_sextet 2 (by omega), decodeFrom_sextet 3 (by omega), ih]
    simp only [Option.map_some]
    rw [ofNat_toNat_eq (a := a) (by omega), ofNat_toNat_eq (a := b) (by omega),
      ofNat_toNat_eq (a := c) (by omega)]
  | case2 a b =>
    have ha := a.toNat_lt
    have hb := b.toNat_lt
    rw [encode, decodeFrom_sextet 0 (by omega), decodeFrom_sextet 1 (by omega),
      decodeFrom_sextet 2 (by omega)]
    show (((some []).map _).map _ : Option (List UInt8)) = _
    simp only [Option.map_some]
    rw [ofNat_toNat_eq (a := a) (by omega), ofNat_toNat_eq (a := b) (by omega)]
  | case3 a =>
    have ha := a.toNat_lt
    rw [encode, decodeFrom_sextet 0 (by omega), decodeFrom_sextet 1 (by omega)]
    show ((some []).map _ : Option (List UInt8)) = _
    simp only [Option.map_some]
    rw [ofNat_toNat_eq (a := a) (by omega)]
  | case4 => rfl

/-- The decoder inverts the encoder. -/
theorem decode_encode (bs : List UInt8) : decode (encode bs) = some bs := decodeFrom_encode bs 0 0

/-- The text is ASCII. -/
theorem encode_ascii (bs : List UInt8) : ∀ c ∈ encode bs, c.toNat < 0x80 := by
  have hchar : ∀ n, n < 64 → (sextetChar n).toNat < 0x80 := fun n hn =>
    (sextet_sextetChar n hn).2.2
  have hpad : '='.toNat < 0x80 := by decide
  induction bs using encode.induct with
  | case1 a b c bs ih =>
    have ha := a.toNat_lt
    have hb := b.toNat_lt
    have hc := c.toNat_lt
    rw [encode]
    simp only [List.forall_mem_cons]
    exact ⟨hchar _ (by omega), hchar _ (by omega), hchar _ (by omega), hchar _ (by omega), ih⟩
  | case2 a b =>
    have ha := a.toNat_lt
    have hb := b.toNat_lt
    rw [encode]
    simp only [List.forall_mem_cons]
    exact ⟨hchar _ (by omega), hchar _ (by omega), hchar _ (by omega), hpad, nofun⟩
  | case3 a =>
    have ha := a.toNat_lt
    rw [encode]
    simp only [List.forall_mem_cons]
    exact ⟨hchar _ (by omega), hchar _ (by omega), hpad, hpad, nofun⟩
  | case4 => exact nofun

end Step

end TaskScheduler.Lib.Base64
