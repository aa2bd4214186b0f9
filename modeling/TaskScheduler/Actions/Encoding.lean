import Mathlib.Data.List.Basic
import Mathlib.Tactic.IntervalCases

/-! Python values on their way into the database: texts with any code points, results as
`json.dumps` writes them, and what the `text` and `jsonb` columns accept. -/

namespace TaskScheduler

/-! ### Texts -/

/-- A Python string: its code points, among which surrogates may stand alone. -/
abbrev PyStr := List (Fin 0x110000)

/-- The code point of a character. -/
def codePoint (c : Char) : Fin 0x110000 :=
  ⟨c.toNat, by
    have := c.valid
    simp only [UInt32.isValidChar, Nat.isValidChar] at this
    simp only [Char.toNat]
    omega⟩

def PyStr.ofString (s : String) : PyStr := s.toList.map codePoint

def surrogate (c : Nat) : Bool := 0xd800 ≤ c && c ≤ 0xdfff

/-- The character that the driver sends for a code point, and that a `text` column accepts: UTF-8
has no surrogates, and PostgreSQL no U+0000. -/
def textChar (c : Fin 0x110000) : Option Char :=
  if surrogate c.val || c.val == 0 then none else some (Char.ofNat c.val)

/-- What a `text` column stores of the string, unless it is rejected. -/
def PyStr.text (s : PyStr) : Option String := (s.mapM textChar).map String.ofList

/-- The string holds neither U+0000 nor a surrogate. -/
def PyStr.Plain (s : PyStr) : Prop := ∀ c ∈ s, surrogate c.val = false ∧ c.val ≠ 0

/-! ### `json.dumps` -/

/-- A float, as `json.dumps` tells them apart; a finite one by the literal that it prints. -/
inductive PyFloat
  | finite (literal : { cs : List Char // ∀ c ∈ cs, c.isDigit = true ∨ c ∈ ['.', 'e', '+', '-'] })
  | nan
  | infinity (negative : Bool)

/-- The digits of the longest integer that Python turns into text. -/
def maxStrDigits : Nat := 4300

/-- The values that `json.dumps` accepts. -/
inductive PyJson
  | none
  | bool (b : Bool)
  | int (n : { n : Int // n.natAbs < 10 ^ maxStrDigits })
  | float (x : PyFloat)
  | str (s : PyStr)
  | list (items : List PyJson)
  | dict (fields : List (PyStr × PyJson))

/-- The UTF-16 units of a code point. -/
def units (c : Nat) : List Nat :=
  if c < 0x10000 then [c] else [0xd800 + (c - 0x10000) / 0x400, 0xdc00 + (c - 0x10000) % 0x400]

/-- `\u` and four digits. -/
def unicodeEscape (u : Nat) : List Char :=
  ['\\', 'u', (u / 0x1000 % 0x10).digitChar, (u / 0x100 % 0x10).digitChar,
    (u / 0x10 % 0x10).digitChar, (u % 0x10).digitChar]

/-- `ESCAPE_DCT`, without the entries that `ensure_ascii` writes the same way. -/
def escapeDct : List (Fin 0x110000 × Char) :=
  [(codePoint '\\', '\\'), (codePoint '"', '"'), (0x08, 'b'), (0x0c, 'f'), (codePoint '\n', 'n'),
    (codePoint '\r', 'r'), (codePoint '\t', 't')]

/-- One character of `py_encode_basestring_ascii`. -/
def escapeChar (c : Fin 0x110000) : List Char :=
  match escapeDct.find? fun kv => kv.1 == c with
  | some kv => ['\\', kv.2]
  | none =>
    if 0x20 ≤ c.val ∧ c.val ≤ 0x7e then [Char.ofNat c.val]
    else (units c.val).flatMap unicodeEscape

/-- `py_encode_basestring_ascii`. -/
def encodeString (s : PyStr) : List Char := '"' :: s.flatMap escapeChar ++ ['"']

def PyFloat.dumps : PyFloat → List Char
  | .finite literal => literal.val
  | .nan => "NaN".toList
  | .infinity negative => if negative then "-Infinity".toList else "Infinity".toList

mutual

/-- `json.dumps`, with its defaults. -/
def PyJson.dumps : PyJson → List Char
  | .none => "null".toList
  | .bool b => if b then "true".toList else "false".toList
  | .int n => n.val.repr.toList
  | .float x => x.dumps
  | .str s => encodeString s
  | .list items => '[' :: dumpsItems items ++ [']']
  | .dict fields => '{' :: dumpsFields fields ++ ['}']

def dumpsItems : List PyJson → List Char
  | [] => []
  | v :: vs => v.dumps ++ (if vs.isEmpty then [] else ", ".toList ++ dumpsItems vs)

def dumpsFields : List (PyStr × PyJson) → List Char
  | [] => []
  | (k, v) :: kvs =>
    encodeString k ++ ": ".toList ++ v.dumps ++
      (if kvs.isEmpty then [] else ", ".toList ++ dumpsFields kvs)

end

/-! ### `repr` -/

/-- `str.isprintable` of one character; surrogates are not printable. -/
structure Printable where
  holds : Fin 0x110000 → Bool
  surrogate_eq_false : ∀ c, surrogate c.val = true → holds c = false

/-- The last `k` hexadecimal digits. -/
def hexDigits (k n : Nat) : List Char :=
  ((List.range k).map fun i => (n / 0x10 ^ i % 0x10).digitChar).reverse

/-- One character of `repr` of a string. -/
def reprChar (lib : Printable) (quote c : Fin 0x110000) : PyStr :=
  if c = quote ∨ c = codePoint '\\' then [codePoint '\\', c]
  else if c = codePoint '\t' then PyStr.ofString "\\t"
  else if c = codePoint '\n' then PyStr.ofString "\\n"
  else if c = codePoint '\r' then PyStr.ofString "\\r"
  else if c.val < 0x20 ∨ c.val = 0x7f then ('\\' :: 'x' :: hexDigits 2 c.val).map codePoint
  else if c.val < 0x7f ∨ lib.holds c = true then [c]
  else if c.val ≤ 0xff then ('\\' :: 'x' :: hexDigits 2 c.val).map codePoint
  else if c.val ≤ 0xffff then ('\\' :: 'u' :: hexDigits 4 c.val).map codePoint
  else ('\\' :: 'U' :: hexDigits 8 c.val).map codePoint

/-- Single quotes, unless only these are in the string. -/
def PyStr.quote (s : PyStr) : Fin 0x110000 :=
  if s.contains (codePoint '\'') && !s.contains (codePoint '"') then codePoint '"'
  else codePoint '\''

/-- `repr` of a string. -/
def PyStr.repr (lib : Printable) (s : PyStr) : PyStr :=
  s.quote :: s.flatMap (reprChar lib s.quote) ++ [s.quote]

/-! ### `jsonb` -/

def highSurrogate (u : Nat) : Bool := 0xd800 ≤ u && u ≤ 0xdbff

def lowSurrogate (u : Nat) : Bool := 0xdc00 ≤ u && u ≤ 0xdfff

/-- The input of a `jsonb` column, character by character: between tokens, in a string, after a
backslash, or in the digits of an escape; `high` where a low surrogate must follow. -/
inductive JsonbState
  | outside
  | inside (high : Bool)
  | escape (high : Bool)
  | digits (high : Bool) (value left : Nat)
  deriving DecidableEq, Repr

def hexValue (c : Char) : Nat :=
  if c.isDigit then c.toNat - '0'.toNat else c.toNat - 'a'.toNat + 10

/-- One unit of a string: U+0000 is rejected, and so is a surrogate that stands alone. -/
def unitStep (high : Bool) (u : Nat) : Option Bool :=
  if u = 0 then none
  else if highSurrogate u then if high then none else some true
  else if lowSurrogate u then if high then some false else none
  else if high then none else some false

/-- One character of a JSON text; the tokens `NaN` and `Infinity` are none of JSON. -/
def jsonbStep : JsonbState → Char → Option JsonbState
  | .outside, c =>
    if c = '"' then some (.inside false)
    else if c = 'N' ∨ c = 'I' then none
    else some .outside
  | .inside high, c =>
    if c = '\\' then some (.escape high)
    else if high then none
    else if c = '"' then some .outside
    else some (.inside false)
  | .escape high, c =>
    if c = 'u' then some (.digits high 0 3)
    else if high then none
    else some (.inside false)
  | .digits high value left, c =>
    match left with
    | 0 => (unitStep high (value * 16 + hexValue c)).map .inside
    | left + 1 => some (.digits high (value * 16 + hexValue c) left)

/-- What a `jsonb` column accepts of a well-formed text. -/
def jsonb (text : List Char) : Bool := text.foldlM jsonbStep .outside == some .outside

/-! ### What is accepted -/

/-- The surrogates among the units come in pairs. -/
def paired : List Nat → Bool
  | [] => true
  | u :: us =>
    if highSurrogate u then
      match us with
      | [] => false
      | v :: vs => lowSurrogate v && paired vs
    else !lowSurrogate u && paired us

/-- The string holds no U+0000 and no surrogate alone. -/
def PyStr.clean (s : PyStr) : Bool :=
  s.all (fun c => c.val != 0) && paired (s.flatMap fun c => units c.val)

mutual

/-- Every string and every key is clean, and every float is finite. -/
def PyJson.clean : PyJson → Bool
  | .none | .bool _ | .int _ => true
  | .float (.finite _) => true
  | .float _ => false
  | .str s => s.clean
  | .list items => cleanItems items
  | .dict fields => cleanFields fields

def cleanItems : List PyJson → Bool
  | [] => true
  | v :: vs => v.clean && cleanItems vs

def cleanFields : List (PyStr × PyJson) → Bool
  | [] => true
  | (k, v) :: kvs => k.clean && v.clean && cleanFields kvs

end

/-! #### Units and escapes -/

theorem hexValue_digitChar {d : Nat} (h : d < 16) : hexValue d.digitChar = d := by
  interval_cases d <;> rfl

/-- The digits of an escape are read back. -/
theorem foldlM_unicodeEscape (high : Bool) {u : Nat} (hu : u < 0x10000) :
    (unicodeEscape u).foldlM jsonbStep (.inside high) = (unitStep high u).map .inside := by
  have hdigit : ∀ k, hexValue (k % 0x10).digitChar = k % 0x10 := fun k =>
    hexValue_digitChar (Nat.mod_lt k (by decide))
  have hvalue : (((0 * 16 + u / 0x1000 % 0x10) * 16 + u / 0x100 % 0x10) * 16 +
      u / 0x10 % 0x10) * 16 + u % 0x10 = u := by
    omega
  simp only [unicodeEscape, List.foldlM_cons, List.foldlM_nil, jsonbStep, hdigit, hvalue, if_true,
    Option.bind_eq_bind, Option.bind_some, Option.pure_def, Option.bind_fun_some]

theorem units_lt {c : Nat} (hc : c < 0x110000) : ∀ u ∈ units c, u < 0x10000 := by
  intro u hu
  unfold units at hu
  split at hu
  · rw [List.mem_singleton.mp hu]
    assumption
  · rcases List.mem_pair.mp hu with h | h <;> omega

theorem foldlM_escapes {us : List Nat} (hus : ∀ u ∈ us, u < 0x10000) (high : Bool) :
    (us.flatMap unicodeEscape).foldlM jsonbStep (.inside high) =
      (us.foldlM unitStep high).map .inside := by
  induction us generalizing high with
  | nil => rfl
  | cons u us ih =>
    rw [List.flatMap_cons, List.foldlM_append, foldlM_unicodeEscape high (hus u List.mem_cons_self),
      List.foldlM_cons]
    cases unitStep high u with
    | none => rfl
    | some high' => exact ih (fun v hv => hus v (List.mem_cons_of_mem _ hv)) high'

/-- A printed character stands for itself. -/
theorem foldlM_printed : ∀ n < 0x7f, 0x20 ≤ n → n ≠ 0x22 → n ≠ 0x5c → ∀ high,
    [Char.ofNat n].foldlM jsonbStep (.inside high) =
      ((units n).foldlM unitStep high).map .inside := by
  decide +kernel

theorem foldlM_escapeDct : ∀ kv ∈ escapeDct, ∀ high,
    ['\\', kv.2].foldlM jsonbStep (.inside high) =
      ((units kv.1.val).foldlM unitStep high).map .inside := by
  decide +kernel

/-- A character of a string is read as its units. -/
theorem foldlM_escapeChar (high : Bool) (c : Fin 0x110000) :
    (escapeChar c).foldlM jsonbStep (.inside high) =
      ((units c.val).foldlM unitStep high).map .inside := by
  unfold escapeChar
  split
  · next kv hkv =>
    have hc : kv.1 = c := by simpa using List.find?_some hkv
    rw [← hc]
    exact foldlM_escapeDct kv (List.mem_of_find?_eq_some hkv) high
  · next hnone =>
    split
    · next h =>
      rw [List.find?_eq_none] at hnone
      have hne : ∀ kv ∈ escapeDct, c.val ≠ kv.1.val := fun kv hkv heq =>
        hnone kv hkv (by simpa using Fin.ext heq.symm)
      exact foldlM_printed c.val (by omega) h.1 (hne (codePoint '"', '"') (by decide))
        (hne (codePoint '\\', '\\') (by decide)) high
    · exact foldlM_escapes (units_lt c.isLt) high

/-! #### Strings -/

/-- The units to come are paired, one of them with the surrogate before. -/
def pairedFrom : Bool → List Nat → Bool
  | false, us => paired us
  | true, [] => false
  | true, u :: us => lowSurrogate u && paired us

theorem high_not_low {u : Nat} (h : highSurrogate u = true) : lowSurrogate u = false := by
  simp only [highSurrogate, lowSurrogate, Bool.and_eq_true, decide_eq_true_eq,
    Bool.and_eq_false_iff, decide_eq_false_iff_not] at *
  omega

theorem paired_high {u : Nat} (h : highSurrogate u = true) (us : List Nat) :
    paired (u :: us) = pairedFrom true us := by
  cases us <;> simp [paired, pairedFrom, h]

theorem paired_other {u : Nat} (h : highSurrogate u = false) (us : List Nat) :
    paired (u :: us) = (!lowSurrogate u && paired us) := by
  cases us <;> simp [paired, h]

theorem foldlM_units (high : Bool) (us : List Nat) : us.foldlM unitStep high = some false ↔
    (∀ u ∈ us, u ≠ 0) ∧ pairedFrom high us = true := by
  induction us generalizing high with
  | nil => cases high <;> simp [pairedFrom, paired]
  | cons u us ih =>
    rw [List.foldlM_cons, List.forall_mem_cons]
    by_cases hzero : u = 0
    · have hstep : unitStep high u = none := by simp [unitStep, hzero]
      rw [hstep]
      simp [hzero]
    · cases hhigh : highSurrogate u with
      | true =>
        cases high with
        | true =>
          have hstep : unitStep true u = none := by simp [unitStep, hzero, hhigh]
          simp [hstep, pairedFrom, high_not_low hhigh]
        | false =>
          have hstep : unitStep false u = some true := by simp [unitStep, hzero, hhigh]
          have hpaired : pairedFrom false (u :: us) = pairedFrom true us := paired_high hhigh us
          rw [hstep, Option.bind_eq_bind, Option.bind_some, ih, hpaired]
          simp [hzero]
      | false =>
        cases high with
        | true =>
          have hstep : unitStep true u = if lowSurrogate u then some false else none := by
            simp [unitStep, hzero, hhigh]
          have hpaired : pairedFrom true (u :: us) = (lowSurrogate u && pairedFrom false us) := rfl
          rw [hstep, hpaired]
          cases lowSurrogate u <;> simp [hzero, ih]
        | false =>
          have hstep : unitStep false u = if lowSurrogate u then none else some false := by
            simp [unitStep, hzero, hhigh]
          have hpaired : pairedFrom false (u :: us) = (!lowSurrogate u && pairedFrom false us) :=
            paired_other hhigh us
          rw [hstep, hpaired]
          cases lowSurrogate u <;> simp [hzero, ih]

theorem units_ne_zero (c : Nat) : (∀ u ∈ units c, u ≠ 0) ↔ c ≠ 0 := by
  unfold units
  split
  · simp
  · constructor
    · intro _
      omega
    · intro _ u hu
      rcases List.mem_pair.mp hu with h | h <;> omega

theorem foldlM_escaped (high : Bool) (s : PyStr) :
    (s.flatMap escapeChar).foldlM jsonbStep (.inside high) =
      ((s.flatMap fun c => units c.val).foldlM unitStep high).map .inside := by
  induction s generalizing high with
  | nil => rfl
  | cons c s ih =>
    rw [List.flatMap_cons, List.flatMap_cons, List.foldlM_append, List.foldlM_append,
      foldlM_escapeChar]
    cases (units c.val).foldlM unitStep high with
    | none => rfl
    | some high' => exact ih high'

theorem clean_iff (s : PyStr) : s.clean = true ↔
    (s.flatMap fun c => units c.val).foldlM unitStep false = some false := by
  rw [foldlM_units]
  unfold PyStr.clean
  simp only [Bool.and_eq_true, List.all_eq_true, bne_iff_ne, ne_eq, List.mem_flatMap]
  refine and_congr ⟨fun h u hu => ?_, fun h c hc => ?_⟩ Iff.rfl
  · obtain ⟨c, hc, hu⟩ := hu
    exact (units_ne_zero c.val).mpr (h c hc) u hu
  · exact (units_ne_zero c.val).mp fun u hu => h u ⟨c, hc, hu⟩

/-- A string of a JSON text is accepted exactly where it is clean. -/
theorem foldlM_encodeString (s : PyStr) : (encodeString s).foldlM jsonbStep .outside =
    if s.clean then some .outside else none := by
  have hopen : (encodeString s).foldlM jsonbStep .outside =
      ((s.flatMap fun c => units c.val).foldlM unitStep false).bind fun high =>
        jsonbStep (.inside high) '"' := by
    rw [encodeString, List.cons_append, List.foldlM_cons]
    change (s.flatMap escapeChar ++ ['"']).foldlM jsonbStep (.inside false) = _
    rw [List.foldlM_append, foldlM_escaped, Option.bind_eq_bind, Option.bind_map]
    congr 1
    funext high
    simp [List.foldlM_cons]
  rw [hopen]
  by_cases hclean : s.clean = true
  · rw [(clean_iff s).mp hclean, if_pos hclean]
    rfl
  · rw [if_neg hclean]
    cases hfold : (s.flatMap fun c => units c.val).foldlM unitStep false with
    | none => rfl
    | some high =>
      cases high with
      | false => exact absurd ((clean_iff s).mpr hfold) hclean
      | true => rfl

/-! #### Values -/

/-- The text is read from one place between tokens to another, if it is accepted. -/
def Read (text : List Char) (accepted : Bool) : Prop :=
  text.foldlM jsonbStep .outside = if accepted then some .outside else none

theorem Read.append {cs ds : List Char} {a b : Bool} (h : Read cs a) (h' : Read ds b) :
    Read (cs ++ ds) (a && b) := by
  unfold Read at *
  rw [List.foldlM_append, h]
  cases a with
  | false => rfl
  | true => simpa using h'

/-- Between the tokens, every character but a quote and the first ones of `NaN` and `Infinity` is
passed over. -/
theorem Read.plain {cs : List Char} (h : ∀ c ∈ cs, c ≠ '"' ∧ c ≠ 'N' ∧ c ≠ 'I') : Read cs true := by
  unfold Read
  induction cs with
  | nil => rfl
  | cons c cs ih =>
    obtain ⟨hquote, hn, hi⟩ := h c List.mem_cons_self
    rw [List.foldlM_cons]
    simp only [jsonbStep, hquote, hn, hi, or_self, if_false, Option.bind_eq_bind, Option.bind_some]
    exact ih fun d hd => h d (List.mem_cons_of_mem _ hd)

/-- The characters of a number. -/
def numeric (c : Char) : Prop := c.isDigit = true ∨ c ∈ ['.', 'e', '+', '-']

theorem numeric.outside {c : Char} (h : numeric c) : c ≠ '"' ∧ c ≠ 'N' ∧ c ≠ 'I' := by
  refine ⟨?_, ?_, ?_⟩ <;> rintro rfl <;> revert h <;> unfold numeric <;> decide

theorem numeric_natRepr (n : Nat) : ∀ c ∈ n.repr.toList, numeric c := by
  intro c hc
  rw [Nat.toList_repr] at hc
  exact .inl (Nat.isDigit_of_mem_toDigits (by decide) (by decide) hc)

theorem numeric_intRepr (n : Int) : ∀ c ∈ n.repr.toList, numeric c := by
  intro c hc
  cases n with
  | ofNat m => exact numeric_natRepr m c hc
  | negSucc m =>
    rw [Int.repr, String.toList_append] at hc
    rcases List.mem_append.mp hc with hc | hc
    · rw [List.mem_singleton.mp hc]
      exact .inr (by decide)
    · exact numeric_natRepr _ c hc

theorem read_float (x : PyFloat) : Read x.dumps (PyJson.float x).clean := by
  cases x with
  | finite literal => exact .plain fun c hc => numeric.outside (literal.property c hc)
  | nan => rfl
  | infinity negative => cases negative <;> rfl

mutual

/-- What `json.dumps` writes is accepted exactly where the value is clean. -/
theorem read_dumps : ∀ v : PyJson, Read v.dumps v.clean
  | .none => rfl
  | .bool b => by cases b <;> rfl
  | .int n => .plain fun c hc => numeric.outside (numeric_intRepr n.val c hc)
  | .float x => read_float x
  | .str s => foldlM_encodeString s
  | .list items => by
    have hopen : Read ['['] true := rfl
    have hclose : Read [']'] true := rfl
    rw [PyJson.dumps, PyJson.clean]
    simpa using (hopen.append (read_dumpsItems items)).append hclose
  | .dict fields => by
    have hopen : Read ['{'] true := rfl
    have hclose : Read ['}'] true := rfl
    rw [PyJson.dumps, PyJson.clean]
    simpa using (hopen.append (read_dumpsFields fields)).append hclose

theorem read_dumpsItems : ∀ vs : List PyJson, Read (dumpsItems vs) (cleanItems vs)
  | [] => rfl
  | v :: vs => by
    have hcomma : Read ", ".toList true := rfl
    have hrest : Read (if vs.isEmpty then [] else ", ".toList ++ dumpsItems vs)
        (cleanItems vs) := by
      cases vs with
      | nil => rfl
      | cons w ws => exact hcomma.append (read_dumpsItems (w :: ws))
    rw [dumpsItems, cleanItems]
    exact (read_dumps v).append hrest

theorem read_dumpsFields : ∀ kvs : List (PyStr × PyJson), Read (dumpsFields kvs) (cleanFields kvs)
  | [] => rfl
  | (k, v) :: kvs => by
    have hcomma : Read ", ".toList true := rfl
    have hcolon : Read ": ".toList true := rfl
    have hkey : Read (encodeString k) k.clean := foldlM_encodeString k
    have hrest : Read (if kvs.isEmpty then [] else ", ".toList ++ dumpsFields kvs)
        (cleanFields kvs) := by
      cases kvs with
      | nil => rfl
      | cons kv kvs => exact hcomma.append (read_dumpsFields (kv :: kvs))
    rw [dumpsFields, cleanFields]
    simpa using ((hkey.append hcolon).append (read_dumps v)).append hrest

end

/-- A result is accepted as `jsonb` exactly where it is clean. -/
theorem jsonb_dumps (v : PyJson) : jsonb v.dumps = v.clean := by
  have h := read_dumps v
  unfold Read at h
  rw [jsonb, h]
  cases v.clean <;> rfl

/-! #### Texts -/

theorem textChar_some {c : Fin 0x110000} : (textChar c).isSome = true ↔
    surrogate c.val = false ∧ c.val ≠ 0 := by
  unfold textChar
  cases surrogate c.val <;> simp

/-- A `text` column accepts exactly the strings without U+0000 and surrogates. -/
theorem text_isSome (s : PyStr) : s.text.isSome = true ↔ s.Plain := by
  unfold PyStr.text PyStr.Plain
  rw [Option.isSome_map]
  induction s with
  | nil => simp
  | cons c s ih =>
    rw [List.forall_mem_cons, ← ih, ← textChar_some, List.mapM_cons]
    cases textChar c with
    | none => simp
    | some d => cases s.mapM textChar <;> simp

/-- What a `text` column accepts as a string, a `jsonb` column accepts in a result. -/
theorem clean_of_plain {s : PyStr} (h : s.Plain) : s.clean = true := by
  rw [clean_iff]
  induction s with
  | nil => rfl
  | cons c s ih =>
    rw [PyStr.Plain, List.forall_mem_cons] at h
    obtain ⟨⟨hsurrogate, hzero⟩, hrest⟩ := h
    have hunits : (units c.val).foldlM unitStep false = some false := by
      rw [foldlM_units]
      refine ⟨(units_ne_zero c.val).mpr hzero, ?_⟩
      simp only [surrogate, Bool.and_eq_false_iff, decide_eq_false_iff_not] at hsurrogate
      unfold units
      split
      · have hhigh : highSurrogate c.val = false := by
          simp only [highSurrogate, Bool.and_eq_false_iff, decide_eq_false_iff_not]
          omega
        have hlow : lowSurrogate c.val = false := by
          simp only [lowSurrogate, Bool.and_eq_false_iff, decide_eq_false_iff_not]
          omega
        rw [pairedFrom, paired_other hhigh, hlow]
        rfl
      · have hlt := c.isLt
        have hhigh : highSurrogate (0xd800 + (c.val - 0x10000) / 0x400) = true := by
          simp only [highSurrogate, Bool.and_eq_true, decide_eq_true_eq]
          omega
        have hlow : lowSurrogate (0xdc00 + (c.val - 0x10000) % 0x400) = true := by
          simp only [lowSurrogate, Bool.and_eq_true, decide_eq_true_eq]
          omega
        rw [pairedFrom, paired_high hhigh, pairedFrom, hlow]
        rfl
    rw [List.flatMap_cons, List.foldlM_append, hunits]
    exact ih hrest

/-- The characters that are printed in ASCII. -/
def printed (c : Char) : Prop := 0x20 ≤ c.toNat ∧ c.toNat ≤ 0x7e

instance : DecidablePred printed := fun c =>
  inferInstanceAs (Decidable (0x20 ≤ c.toNat ∧ c.toNat ≤ 0x7e))

/-- The text is printed ASCII. -/
def Printed (cs : List Char) : Prop := ∀ c ∈ cs, printed c

instance (cs : List Char) : Decidable (Printed cs) := List.decidableBAll printed cs

theorem numeric.printed {c : Char} (h : numeric c) : printed c := by
  rcases h with h | h
  · simp only [Char.isDigit, Bool.and_eq_true, decide_eq_true_eq, ge_iff_le,
      UInt32.le_iff_toNat_le] at h
    have hlow : 48 ≤ c.toNat := h.1
    have hhigh : c.toNat ≤ 57 := h.2
    unfold TaskScheduler.printed
    omega
  · exact (show Printed ['.', 'e', '+', '-'] by decide) c h

theorem printed_escapeChar (c : Fin 0x110000) : Printed (escapeChar c) := by
  have hdct : Printed (escapeDct.map (·.2)) := by decide +kernel
  have hdigit : ∀ d < 16, printed d.digitChar := by
    decide +kernel
  have hescape : ∀ u, Printed (unicodeEscape u) := by
    intro u
    have hmod : ∀ k, printed (k % 0x10).digitChar := fun k => hdigit _ (Nat.mod_lt k (by decide))
    simp only [unicodeEscape, Printed, List.forall_mem_cons]
    exact ⟨by decide +kernel, by decide +kernel, hmod _, hmod _, hmod _, hmod _,
      List.forall_mem_nil _⟩
  have hself : ∀ n < 0x7f, 0x20 ≤ n → printed (Char.ofNat n) := by
    decide +kernel
  unfold escapeChar
  split
  · next kv hkv =>
    intro d hd
    rcases List.mem_pair.mp hd with rfl | rfl
    · decide +kernel
    · exact hdct kv.2 (List.mem_map_of_mem (List.mem_of_find?_eq_some hkv))
  · split
    · next h =>
      intro d hd
      rw [List.mem_singleton.mp hd]
      exact hself c.val (by omega) h.1
    · intro d hd
      obtain ⟨u, -, hd⟩ := List.mem_flatMap.mp hd
      exact hescape u d hd

theorem printed_encodeString (s : PyStr) : Printed (encodeString s) := by
  intro c hc
  rcases List.mem_append.mp hc with hc | hc
  · rcases List.mem_cons.mp hc with rfl | hc
    · decide +kernel
    · obtain ⟨d, -, hc⟩ := List.mem_flatMap.mp hc
      exact printed_escapeChar d c hc
  · rw [List.mem_singleton.mp hc]
    decide +kernel

theorem printed_append {cs ds : List Char} (h : Printed cs) (h' : Printed ds) :
    Printed (cs ++ ds) :=
  List.forall_mem_append.mpr ⟨h, h'⟩

/-- The characters of the literals. -/
theorem printed_literals : Printed "null".toList ∧ Printed "true".toList ∧
    Printed "false".toList ∧ Printed "NaN".toList ∧
    Printed "Infinity".toList ∧ Printed "-Infinity".toList ∧
    Printed ", ".toList ∧ Printed ": ".toList ∧
    Printed "[]{}".toList := by
  decide +kernel

theorem printed_float (x : PyFloat) : Printed x.dumps := by
  obtain ⟨-, -, -, hnan, hinf, hneg, -⟩ := printed_literals
  cases x with
  | finite literal => exact fun c hc => numeric.printed (literal.property c hc)
  | nan => exact hnan
  | infinity negative =>
    cases negative with
    | true => exact hneg
    | false => exact hinf

mutual

/-- `json.dumps` writes printed ASCII, whatever is in the value. -/
theorem printed_dumps : ∀ v : PyJson, Printed v.dumps
  | .none => printed_literals.1
  | .bool true => printed_literals.2.1
  | .bool false => printed_literals.2.2.1
  | .int n => fun c hc => numeric.printed (numeric_intRepr n.val c hc)
  | .float x => printed_float x
  | .str s => printed_encodeString s
  | .list items => by
    obtain ⟨-, -, -, -, -, -, -, -, hbracket⟩ := printed_literals
    rw [PyJson.dumps, ← List.singleton_append]
    exact printed_append (printed_append (fun c hc => hbracket c (by simp_all))
      (printed_dumpsItems items)) fun c hc => hbracket c (by simp_all)
  | .dict fields => by
    obtain ⟨-, -, -, -, -, -, -, -, hbracket⟩ := printed_literals
    rw [PyJson.dumps, ← List.singleton_append]
    exact printed_append (printed_append (fun c hc => hbracket c (by simp_all))
      (printed_dumpsFields fields)) fun c hc => hbracket c (by simp_all)

theorem printed_dumpsItems : ∀ vs : List PyJson, Printed (dumpsItems vs)
  | [] => fun c hc => by cases hc
  | v :: vs => by
    obtain ⟨-, -, -, -, -, -, hcomma, -⟩ := printed_literals
    rw [dumpsItems]
    refine printed_append (printed_dumps v) ?_
    split
    · exact List.forall_mem_nil _
    · exact printed_append hcomma (printed_dumpsItems vs)

theorem printed_dumpsFields : ∀ kvs : List (PyStr × PyJson), Printed (dumpsFields kvs)
  | [] => fun c hc => by cases hc
  | (k, v) :: kvs => by
    obtain ⟨-, -, -, -, -, -, hcomma, hcolon, -⟩ := printed_literals
    rw [dumpsFields]
    refine printed_append (printed_append (printed_append (printed_encodeString k) hcolon)
      (printed_dumps v)) ?_
    split
    · exact List.forall_mem_nil _
    · exact printed_append hcomma (printed_dumpsFields kvs)

end

theorem textChar_codePoint {c : Char} (h : printed c) : textChar (codePoint c) = some c := by
  have hvalue : (codePoint c).val = c.toNat := rfl
  have hplain : (surrogate c.toNat || c.toNat == 0) = false := by
    simp only [surrogate, Bool.or_eq_false_iff, Bool.and_eq_false_iff, decide_eq_false_iff_not,
      beq_eq_false_iff_ne]
    have := h.1
    have := h.2
    omega
  rw [textChar, hvalue, hplain, if_neg Bool.false_ne_true, Char.ofNat_toNat]

/-- Printed text is stored as it is. -/
theorem text_printed {cs : List Char} (h : Printed cs) :
    PyStr.text (cs.map codePoint) = some (String.ofList cs) := by
  have hmap : (cs.map codePoint).mapM textChar = some cs := by
    induction cs with
    | nil => rfl
    | cons c cs ih =>
      rw [List.map_cons, List.mapM_cons, textChar_codePoint (h c List.mem_cons_self),
        ih fun d hd => h d (List.mem_cons_of_mem _ hd)]
      rfl
  rw [PyStr.text, hmap]
  rfl

/-- A result is always accepted as `text`. -/
theorem text_dumps (v : PyJson) :
    PyStr.text (v.dumps.map codePoint) = some (String.ofList v.dumps) :=
  text_printed (printed_dumps v)

theorem plain_append {s t : PyStr} (h : s.Plain) (h' : t.Plain) : (s ++ t).Plain :=
  List.forall_mem_append.mpr ⟨h, h'⟩

theorem plain_printed {cs : List Char} (h : Printed cs) :
    PyStr.Plain (cs.map codePoint) := by
  rw [← text_isSome, text_printed h]
  rfl

theorem plain_of_ascii {c : Fin 0x110000} (h : 0 < c.val) (h' : c.val < 0x80) :
    PyStr.Plain [c] := by
  intro d hd
  rw [List.mem_singleton.mp hd]
  refine ⟨?_, by omega⟩
  simp only [surrogate, Bool.and_eq_false_iff, decide_eq_false_iff_not]
  omega

theorem printed_hexDigits (k n : Nat) : Printed (hexDigits k n) := by
  have hdigit : ∀ d < 16, printed d.digitChar := by
    decide +kernel
  intro c hc
  obtain ⟨i, -, rfl⟩ := List.mem_map.mp (List.mem_reverse.mp hc)
  exact hdigit _ (Nat.mod_lt _ (by decide))

/-- What `repr` writes of a character holds no U+0000 and no surrogate. -/
theorem plain_reprChar (lib : Printable) {quote : Fin 0x110000}
    (hquote : quote = codePoint '\'' ∨ quote = codePoint '"') (c : Fin 0x110000) :
    (reprChar lib quote c).Plain := by
  have hback : PyStr.Plain [codePoint '\\'] := plain_of_ascii (by decide) (by decide)
  have hhex : ∀ l ∈ ['x', 'u', 'U'], ∀ k,
      PyStr.Plain (('\\' :: l :: hexDigits k c.val).map codePoint) := by
    intro l hl k
    have hletter : Printed ['x', 'u', 'U'] := by decide
    exact plain_printed (List.forall_mem_cons.mpr ⟨by decide, List.forall_mem_cons.mpr
      ⟨hletter l hl, printed_hexDigits k c.val⟩⟩)
  unfold reprChar
  split
  · next h =>
    refine plain_append hback (plain_of_ascii ?_ ?_) <;> rcases h with rfl | rfl
    · rcases hquote with rfl | rfl <;> decide
    · decide
    · rcases hquote with rfl | rfl <;> decide
    · decide
  · split
    · exact @plain_printed "\\t".toList (by decide +kernel)
    · split
      · exact @plain_printed "\\n".toList (by decide +kernel)
      · split
        · exact @plain_printed "\\r".toList (by decide +kernel)
        · split
          · exact hhex 'x' (by decide) 2
          · split
            · next hcontrol h =>
              intro d hd
              rw [List.mem_singleton.mp hd]
              refine ⟨?_, by omega⟩
              rcases h with h | h
              · simp only [surrogate, Bool.and_eq_false_iff, decide_eq_false_iff_not]
                omega
              · cases hsur : surrogate c.val with
                | false => rfl
                | true => rw [lib.surrogate_eq_false c hsur] at h; cases h
            · split
              · exact hhex 'x' (by decide) 2
              · split
                · exact hhex 'u' (by decide) 4
                · exact hhex 'U' (by decide) 8

/-- The `repr` of a string is accepted as `text`, whatever is in the string. -/
theorem plain_repr (lib : Printable) (s : PyStr) : (s.repr lib).Plain := by
  have hquote : s.quote = codePoint '\'' ∨ s.quote = codePoint '"' := by
    unfold PyStr.quote
    split
    · exact .inr rfl
    · exact .inl rfl
  have hplain : PyStr.Plain [s.quote] := by
    rcases hquote with h | h
    · rw [h]
      exact plain_of_ascii (by decide) (by decide)
    · rw [h]
      exact plain_of_ascii (by decide) (by decide)
  refine plain_append (plain_append hplain ?_) hplain
  intro d hd
  obtain ⟨c, -, hd⟩ := List.mem_flatMap.mp hd
  exact plain_reprChar lib hquote c d hd

end TaskScheduler
