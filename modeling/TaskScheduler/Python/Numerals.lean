import TaskScheduler.Python.Loads

/-! The numbers that `json.dumps` has written, as `json.loads` reads them, and the texts of `repr`
of a float. -/

namespace TaskScheduler

def Digits (cs : List Char) : Prop := ∀ c ∈ cs, c.isDigit = true

instance (cs : List Char) : Decidable (Digits cs) :=
  inferInstanceAs (Decidable (∀ c ∈ cs, c.isDigit = true))

/-- The digits of an integer: a zero, or digits that do not begin with one. -/
def IntDigits (cs : List Char) : Prop :=
  cs = ['0'] ∨ ∃ d ds, cs = d :: ds ∧ d ≠ '0' ∧ Digits cs

def FractionText (cs : List Char) : Prop := cs = [] ∨ ∃ ds, cs = '.' :: ds ∧ ds ≠ [] ∧ Digits ds

def ExponentText (cs : List Char) : Prop :=
  cs = [] ∨ ∃ sign ds, cs = 'e' :: (sign ++ ds) ∧ (sign = ['-'] ∨ sign = ['+']) ∧ ds ≠ [] ∧
    Digits ds

def signText (negative : Bool) : List Char := if negative then ['-'] else []

/-- What `repr` writes of a finite float. -/
def FloatText (cs : List Char) : Prop :=
  ∃ negative digits fraction exponent, IntDigits digits ∧ FractionText fraction ∧
    ExponentText exponent ∧ ¬(fraction = [] ∧ exponent = []) ∧
    cs = signText negative ++ digits ++ fraction ++ exponent

/-- No character of a number comes first. -/
def Stops (rest : PyStr) : Prop :=
  ∀ c, rest.head? = some c → digit c = false ∧ c ≠ codePoint '.' ∧ c ≠ codePoint 'e' ∧
    c ≠ codePoint 'E'

theorem digit_codePoint (c : Char) : digit (codePoint c) = c.isDigit := by
  rfl

theorem scanDigits_append {ds : List Char} (hds : Digits ds) {rest : PyStr}
    (hrest : ∀ c, rest.head? = some c → digit c = false) :
    scanDigits (ds.map codePoint ++ rest) = (ds, rest) := by
  have htake : rest.takeWhile digit = [] := by
    cases rest with
    | nil => rfl
    | cons c rest => rw [List.takeWhile_cons, hrest c rfl]; rfl
  have hdrop : rest.dropWhile digit = rest := by
    cases rest with
    | nil => rfl
    | cons c rest => rw [List.dropWhile_cons, hrest c rfl]; rfl
  have hall : ∀ c ∈ ds.map codePoint, digit c = true := by
    intro c hc
    obtain ⟨d, hd, rfl⟩ := List.mem_map.mp hc
    rw [digit_codePoint]
    exact hds d hd
  have hchars : (ds.map codePoint).map (fun c => Char.ofNat c.val) = ds := by
    rw [List.map_map]
    exact (List.map_congr_left fun c _ => Char.ofNat_toNat c).trans (List.map_id ds)
  rw [scanDigits, List.takeWhile_append_of_pos hall, List.dropWhile_append_of_pos hall, htake,
    hdrop, List.append_nil, hchars]

theorem codePoint_injective {c d : Char} (h : codePoint c = codePoint d) : c = d := by
  have hval : c.toNat = d.toNat := congrArg (fun x : Fin 0x110000 => x.val) h
  exact Char.ext (UInt32.toNat_inj.mp hval)

theorem IntDigits.digits {ds : List Char} (h : IntDigits ds) : Digits ds := by
  rcases h with rfl | ⟨d, ds, rfl, -, hdigits⟩
  · intro c hc
    obtain rfl := List.mem_singleton.mp hc
    rfl
  · exact hdigits

theorem IntDigits.head {ds : List Char} (h : IntDigits ds) :
    ∃ d ds', ds = d :: ds' ∧ d.isDigit = true := by
  have hdigits := h.digits
  rcases h with rfl | ⟨d, ds, rfl, -, -⟩
  · exact ⟨'0', [], rfl, rfl⟩
  · exact ⟨d, ds, rfl, hdigits d List.mem_cons_self⟩

/-- The digits of an integer are scanned after its sign. -/
theorem scanUnsigned_digits {digits : List Char} (hdigits : IntDigits digits) {rest : PyStr}
    (hrest : ∀ c, rest.head? = some c → digit c = false) :
    scanUnsigned (digits.map codePoint ++ rest) = some (digits, rest) := by
  rcases hdigits with rfl | ⟨d, ds, rfl, hd, hdigits⟩
  · rfl
  · have hzero : codePoint d ≠ codePoint '0' := fun h => hd (codePoint_injective h)
    have hscan := scanDigits_append hdigits hrest
    rw [List.map_cons, List.cons_append] at hscan ⊢
    rw [scanUnsigned, if_neg hzero,
      if_pos (by rw [digit_codePoint]; exact hdigits d List.mem_cons_self), hscan]

theorem scanInt_digits {digits : List Char} (hdigits : IntDigits digits) (negative : Bool)
    {rest : PyStr} (hrest : ∀ c, rest.head? = some c → digit c = false) :
    scanInt ((signText negative ++ digits).map codePoint ++ rest) =
      some (negative, digits, rest) := by
  have hunsigned := scanUnsigned_digits hdigits hrest
  cases negative with
  | true =>
    show (scanUnsigned (digits.map codePoint ++ rest)).map _ = _
    rw [hunsigned]
    rfl
  | false =>
    obtain ⟨d, ds, rfl, hd⟩ := hdigits.head
    have hminus : codePoint d ≠ codePoint '-' := by
      intro h
      rw [codePoint_injective h] at hd
      cases hd
    have hsign : (((d :: ds).map codePoint ++ rest).head? == some (codePoint '-')) = false := by
      simpa using hminus
    rw [show signText false ++ d :: ds = d :: ds from rfl, scanInt, hsign]
    simp only [Bool.false_eq_true, if_false]
    rw [hunsigned]
    rfl

theorem scanFraction_append {fraction : List Char} (hfraction : FractionText fraction)
    {rest : PyStr} (hrest : ∀ c, rest.head? = some c → digit c = false ∧ c ≠ codePoint '.') :
    scanFraction (fraction.map codePoint ++ rest) = (fraction, rest) := by
  rcases hfraction with rfl | ⟨ds, rfl, hne, hds⟩
  · cases rest with
    | nil => rfl
    | cons c rest =>
      show (if c = codePoint '.' ∧ (scanDigits rest).1 ≠ [] then _ else _) = _
      rw [if_neg fun h => (hrest c rfl).2 h.1]
      rfl
  · have hscan := scanDigits_append hds fun c hc => (hrest c hc).1
    show scanFraction (codePoint '.' :: (ds.map codePoint ++ rest)) = _
    rw [scanFraction]
    dsimp only
    rw [hscan, if_pos ⟨rfl, hne⟩]

theorem scanExponent_append {exponent : List Char} (hexponent : ExponentText exponent)
    {rest : PyStr} (hrest : Stops rest) :
    scanExponent (exponent.map codePoint ++ rest) = (exponent, rest) := by
  rcases hexponent with rfl | ⟨sign, ds, rfl, hsign, hne, hds⟩
  · cases rest with
    | nil => rfl
    | cons c rest =>
      obtain ⟨-, -, he, hE⟩ := hrest c rfl
      show (if (c = codePoint 'e' ∨ c = codePoint 'E') ∧
        (scanDigits (rest.drop (exponentSign rest).length)).1 ≠ [] then _ else _) = _
      rw [if_neg fun h => h.1.elim he hE]
      rfl
  · have hscan := scanDigits_append hds fun c hc => (hrest c hc).1
    have hexponentSign : exponentSign ((sign ++ ds).map codePoint ++ rest) = sign := by
      rcases hsign with rfl | rfl <;> rfl
    have hdrop : ((sign ++ ds).map codePoint ++ rest).drop sign.length =
        ds.map codePoint ++ rest := by
      rw [List.map_append, List.append_assoc, List.drop_left' (List.length_map _)]
    show scanExponent (codePoint 'e' :: ((sign ++ ds).map codePoint ++ rest)) = _
    simp only [scanExponent, hexponentSign, hdrop, hscan]
    rw [if_pos ⟨.inl trivial, hne⟩]
    rfl

theorem intDigits_toDigits (n : Nat) : IntDigits (Nat.toDigits 10 n) := by
  induction n using Nat.strongRecOn with
  | ind n ih =>
    have hdigits : Digits (Nat.toDigits 10 n) := fun c hc =>
      Nat.isDigit_of_mem_toDigits (by decide) (by decide) hc
    by_cases hn : n < 10
    · rw [Nat.toDigits_of_lt_base hn] at hdigits ⊢
      by_cases hzero : n = 0
      · rw [hzero]
        exact .inl rfl
      · refine .inr ⟨n.digitChar, [], rfl, fun h => hzero ?_, hdigits⟩
        have hvalue := Nat.toNat_digitChar_of_lt_ten hn
        rw [h] at hvalue
        have : 48 = 48 + n := hvalue
        omega
    · rw [Nat.toDigits_of_base_le (by decide) (by omega)] at hdigits ⊢
      rcases ih (n / 10) (by omega) with h | ⟨d, ds, h, hd, -⟩
      · have hvalue : Nat.ofDigitChars 10 (Nat.toDigits 10 (n / 10)) 0 = n / 10 :=
          Nat.ofDigitChars_ten_toDigits
        rw [h] at hvalue
        have : 0 = n / 10 := hvalue
        omega
      · rw [h] at hdigits ⊢
        exact .inr ⟨d, ds ++ [(n % 10).digitChar], rfl, hd, hdigits⟩

theorem toList_intRepr (n : Int) :
    n.repr.toList = signText (decide (n < 0)) ++ Nat.toDigits 10 n.natAbs := by
  cases n with
  | ofNat m =>
    rw [show decide (Int.ofNat m < 0) = false from decide_eq_false (by simp)]
    exact Nat.toList_repr
  | negSucc m =>
    rw [Int.repr, String.toList_append, Nat.toList_repr,
      show decide (Int.negSucc m < 0) = true from decide_eq_true (by omega)]
    rfl

theorem readInt_eq (n : { n : Int // n.natAbs < 10 ^ maxStrDigits }) :
    readInt n.val = .ok (.int n) := by
  rw [readInt, dif_pos n.property]

theorem intOfDigits_toDigits (n : { n : Int // n.natAbs < 10 ^ maxStrDigits }) :
    intOfDigits (decide (n.val < 0)) (Nat.toDigits 10 n.val.natAbs) = .ok (.int n) := by
  have hvalue : (if decide (n.val < 0) = true then -(n.val.natAbs : Int) else n.val.natAbs) =
      n.val := by
    simp only [decide_eq_true_eq]
    split <;> omega
  rw [intOfDigits, natOfDigits, Nat.ofDigitChars_ten_toDigits, hvalue, readInt_eq]

section Number

variable {py : Interpreter} {rest : PyStr}

/-- An integer is read back. -/
theorem scanNumber_int (n : { n : Int // n.natAbs < 10 ^ maxStrDigits }) (hrest : Stops rest) :
    scanNumber py (n.val.repr.toList.map codePoint ++ rest) = .ok (.int n, rest) := by
  have hint := scanInt_digits (intDigits_toDigits n.val.natAbs) (decide (n.val < 0))
    fun c hc => (hrest c hc).1
  have hfraction : scanFraction rest = ([], rest) :=
    scanFraction_append (.inl rfl) fun c hc => ⟨(hrest c hc).1, (hrest c hc).2.1⟩
  have hexponent : scanExponent rest = ([], rest) := scanExponent_append (.inl rfl) hrest
  rw [toList_intRepr]
  simp only [scanNumber, hint, hfraction, hexponent, and_self, if_true, intOfDigits_toDigits]
  rfl

/-- A float is read from its text. -/
theorem scanNumber_float {cs : List Char} (hcs : FloatText cs) (hrest : Stops rest) :
    scanNumber py (cs.map codePoint ++ rest) = .ok (.float (py.float cs), rest) := by
  obtain ⟨negative, digits, fraction, exponent, hdigits, hfraction, hexponent, hne, rfl⟩ := hcs
  have hscanExponent := scanExponent_append hexponent hrest
  have hafter : ∀ c, (exponent.map codePoint ++ rest).head? = some c →
      digit c = false ∧ c ≠ codePoint '.' := by
    intro c hc
    rcases hexponent with rfl | ⟨sign, ds, rfl, -⟩
    · exact ⟨(hrest c hc).1, (hrest c hc).2.1⟩
    · obtain rfl := Option.some.inj hc
      exact ⟨rfl, by decide⟩
  have hscanFraction := scanFraction_append hfraction hafter
  have hbefore : ∀ c, (fraction.map codePoint ++ (exponent.map codePoint ++ rest)).head? = some c →
      digit c = false := by
    intro c hc
    rcases hfraction with rfl | ⟨ds, rfl, -⟩
    · exact (hafter c hc).1
    · obtain rfl := Option.some.inj hc
      rfl
  have hint := scanInt_digits hdigits negative hbefore
  rw [List.map_append, List.map_append, List.append_assoc, List.append_assoc]
  simp only [scanNumber, hint, hscanFraction, hscanExponent, hne, if_false]
  rfl

end Number

end TaskScheduler
