import TaskScheduler.Actions.Encoding

/-! Bytes and texts: `detect_encoding` of Python's `json` package, and the decoders that it chooses
between, with the error handler `surrogatepass`. -/

namespace TaskScheduler

abbrev Bytes := List UInt8

def codePoint? (n : Nat) : Option (Fin 0x110000) := if h : n < 0x110000 then some ⟨n, h⟩ else none

/-- The code point that a high and a low surrogate stand for. -/
def joinSurrogates (high low : Nat) : Nat := 0x10000 + (high - 0xd800) * 0x400 + (low - 0xdc00)

/-! ### UTF-8 -/

def continuation (b : UInt8) : Bool := 0x80 ≤ b && b ≤ 0xbf

/-- UTF-8, in which surrogates are let through. -/
def utf8 : Bytes → Option PyStr
  | [] => some []
  | a :: bs =>
    if a < 0x80 then do return (← codePoint? a.toNat) :: (← utf8 bs)
    else if 0xc2 ≤ a ∧ a ≤ 0xdf then
      match bs with
      | b :: bs =>
        if continuation b then do
          return (← codePoint? ((a.toNat - 0xc0) * 0x40 + (b.toNat - 0x80))) :: (← utf8 bs)
        else none
      | [] => none
    else if 0xe0 ≤ a ∧ a ≤ 0xef then
      match bs with
      | b :: c :: bs =>
        let n := ((a.toNat - 0xe0) * 0x40 + (b.toNat - 0x80)) * 0x40 + (c.toNat - 0x80)
        if continuation b && continuation c && 0x800 ≤ n then do
          return (← codePoint? n) :: (← utf8 bs)
        else none
      | _ => none
    else if 0xf0 ≤ a ∧ a ≤ 0xf4 then
      match bs with
      | b :: c :: d :: bs =>
        let n := (((a.toNat - 0xf0) * 0x40 + (b.toNat - 0x80)) * 0x40 + (c.toNat - 0x80)) * 0x40 +
          (d.toNat - 0x80)
        if continuation b && continuation c && continuation d && 0x10000 ≤ n then do
          return (← codePoint? n) :: (← utf8 bs)
        else none
      | _ => none
    else none

/-! ### UTF-16 and UTF-32 -/

/-- The 16-bit units of the bytes, most significant byte first if `big`. -/
def units16 (big : Bool) : Bytes → Option (List Nat)
  | [] => some []
  | [_] => none
  | a :: b :: bs => do
    let us ← units16 big bs
    return (if big then a.toNat * 0x100 + b.toNat else b.toNat * 0x100 + a.toNat) :: us

/-- Pairs of surrogates are joined; others are let through. -/
def joinUnits : List Nat → List Nat
  | u :: v :: us =>
    if highSurrogate u && lowSurrogate v then joinSurrogates u v :: joinUnits us
    else u :: joinUnits (v :: us)
  | us => us

def utf16 (big : Bool) (bs : Bytes) : Option PyStr := do
  (joinUnits (← units16 big bs)).mapM codePoint?

def utf32 (big : Bool) : Bytes → Option PyStr
  | [] => some []
  | a :: b :: c :: d :: bs => do
    let n := if big then ((a.toNat * 0x100 + b.toNat) * 0x100 + c.toNat) * 0x100 + d.toNat
      else ((d.toNat * 0x100 + c.toNat) * 0x100 + b.toNat) * 0x100 + a.toNat
    return (← codePoint? n) :: (← utf32 big bs)
  | _ => none

/-- `s.decode(detect_encoding(s), "surrogatepass")`: the byte order marks, and else the zeros among
the first bytes, tell the encoding. -/
def decodeText (bs : Bytes) : Option PyStr :=
  if [0x00, 0x00, 0xfe, 0xff].isPrefixOf bs then utf32 true (bs.drop 4)
  else if [0xff, 0xfe, 0x00, 0x00].isPrefixOf bs then utf32 false (bs.drop 4)
  else if [0xfe, 0xff].isPrefixOf bs then utf16 true (bs.drop 2)
  else if [0xff, 0xfe].isPrefixOf bs then utf16 false (bs.drop 2)
  else if [0xef, 0xbb, 0xbf].isPrefixOf bs then utf8 (bs.drop 3)
  else
    match bs with
    | a :: b :: c :: d :: _ =>
      if a = 0 then if b = 0 then utf32 true bs else utf16 true bs
      else if b = 0 then if c = 0 ∧ d = 0 then utf32 false bs else utf16 false bs
      else utf8 bs
    | [a, b] => if a = 0 then utf16 true bs else if b = 0 then utf16 false bs else utf8 bs
    | _ => utf8 bs

/-! ### ASCII -/

/-- `encode()` of an ASCII text. -/
def asciiBytes (cs : List Char) : Bytes := cs.map fun c => UInt8.ofNat c.toNat

theorem toNat_asciiByte {c : Char} (h : printed c) : (UInt8.ofNat c.toNat).toNat = c.toNat := by
  have := h.2
  rw [UInt8.toNat_ofNat']
  omega

theorem utf8_ascii {cs : List Char} (h : Printed cs) :
    utf8 (asciiBytes cs) = some (cs.map codePoint) := by
  induction cs with
  | nil => rfl
  | cons c cs ih =>
    have hc := h c List.mem_cons_self
    have hcs : Printed cs := fun d hd => h d (List.mem_cons_of_mem _ hd)
    have hbyte := toNat_asciiByte hc
    have hlow : UInt8.ofNat c.toNat < 0x80 := by
      rw [UInt8.lt_iff_toNat_lt, hbyte]
      have := hc.2
      show c.toNat < 128
      omega
    have hpoint : codePoint? c.toNat = some (codePoint c) := dif_pos (codePoint c).isLt
    rw [show asciiBytes (c :: cs) = UInt8.ofNat c.toNat :: asciiBytes cs from rfl, utf8.eq_def]
    dsimp only
    rw [if_pos hlow, hbyte, hpoint, ih hcs]
    rfl

/-- Printed ASCII is detected as UTF-8, and is decoded to itself. -/
theorem decodeText_ascii {cs : List Char} (h : Printed cs) :
    decodeText (asciiBytes cs) = some (cs.map codePoint) := by
  have hbyte : ∀ b ∈ asciiBytes cs, 0x20 ≤ b.toNat ∧ b.toNat ≤ 0x7e := by
    intro b hb
    obtain ⟨c, hc, rfl⟩ := List.mem_map.mp hb
    rw [toNat_asciiByte (h c hc)]
    exact h c hc
  have hmark : ∀ (m : UInt8) (ms : Bytes), m.toNat < 0x20 ∨ 0x7e < m.toNat →
      (m :: ms).isPrefixOf (asciiBytes cs) = false := by
    intro m ms hm
    cases hcs : asciiBytes cs with
    | nil => rfl
    | cons b bs =>
      have := hbyte b (by simp [hcs])
      have hne : m ≠ b := by
        rintro rfl
        omega
      rw [show (m :: ms).isPrefixOf (b :: bs) = (m == b && ms.isPrefixOf bs) from rfl,
        beq_eq_false_iff_ne.mpr hne, Bool.false_and]
  have hzero : ∀ b ∈ asciiBytes cs, b ≠ 0 := by
    rintro b hb rfl
    exact absurd (hbyte 0 hb).1 (by decide)
  rw [← utf8_ascii h]
  unfold decodeText
  rw [hmark _ _ (by decide), hmark _ _ (by decide), hmark _ _ (by decide), hmark _ _ (by decide),
    hmark _ _ (by decide)]
  simp only [Bool.false_eq_true, if_false]
  split
  · next a b c d bs heq =>
    rw [heq] at hzero
    rw [if_neg (hzero a (by simp)), if_neg (hzero b (by simp))]
  · next a b heq =>
    rw [heq] at hzero
    rw [if_neg (hzero a (by simp)), if_neg (hzero b (by simp))]
  · rfl

end TaskScheduler
