import TaskScheduler.Python.Codecs

/-! `json.loads` of Python, from bytes to values: a recursive descent over the code points, whose
depth is bounded by the recursion limit of the interpreter. -/

namespace TaskScheduler

/-- The exceptions of the language and of its standard library that the code meets, by their
classes; `JSONDecodeError`, `UnicodeDecodeError` and `binascii.Error` are `ValueError`s. -/
inductive PyException
  | keyError
  | indexError
  | valueError
  | typeError
  | attributeError
  | overflowError
  | recursionError
  deriving DecidableEq, Repr

/-- What the results depend on besides the values: `float`, and how many arrays and objects may be
nested, one at least, before the recursion limit is reached in writing and in reading a text. -/
structure Interpreter where
  float : List Char → PyFloat
  encodeDepth : Nat
  decodeDepth : Nat
  encodeDepth_pos : 0 < encodeDepth
  decodeDepth_pos : 0 < decodeDepth

/-- An interpreter for texts without floats. -/
def plainInterpreter : Interpreter := ⟨fun _ => .nan, 1000, 1000, by decide, by decide⟩

/-! ### Strings -/

/-- The value of a hexadecimal digit. -/
def hexDigit? (c : Fin 0x110000) : Option Nat :=
  if 0x30 ≤ c.val ∧ c.val ≤ 0x39 then some (c.val - 0x30)
  else if 0x61 ≤ c.val ∧ c.val ≤ 0x66 then some (c.val - 0x61 + 10)
  else if 0x41 ≤ c.val ∧ c.val ≤ 0x46 then some (c.val - 0x41 + 10)
  else none

/-- `_decode_uXXXX`. -/
def hexUnit (a b c d : Fin 0x110000) : Option (Fin 0x110000) := do
  let n := ((← hexDigit? a) * 0x10 + (← hexDigit? b)) * 0x100 +
    ((← hexDigit? c) * 0x10 + (← hexDigit? d))
  codePoint? n

/-- `BACKSLASH`. -/
def backslash : List (Char × Fin 0x110000) :=
  [('"', codePoint '"'), ('\\', codePoint '\\'), ('/', codePoint '/'),
    ('b', codePoint (Char.ofNat 0x08)), ('f', codePoint (Char.ofNat 0x0c)),
    ('n', codePoint '\n'), ('r', codePoint '\r'), ('t', codePoint '\t')]

/-- The units of a string after its opening quote, up to the closing one, and what follows it.  The
flag is set for those that are written as `\uXXXX`. -/
def scanUnits : PyStr → Option (List (Fin 0x110000 × Bool) × PyStr)
  | [] => none
  | c :: cs =>
    if c = codePoint '"' then some ([], cs)
    else if c = codePoint '\\' then
      match cs with
      | [] => none
      | e :: cs =>
        if e = codePoint 'u' then
          match cs with
          | a :: b :: d :: f :: cs => do
            let u ← hexUnit a b d f
            let (us, rest) ← scanUnits cs
            return ((u, true) :: us, rest)
          | _ => none
        else do
          let kv ← backslash.find? fun kv => codePoint kv.1 == e
          let (us, rest) ← scanUnits cs
          return ((kv.2, false) :: us, rest)
    else if c.val < 0x20 then none
    else do
      let (us, rest) ← scanUnits cs
      return ((c, false) :: us, rest)

theorem joinSurrogates_lt {high low : Nat} (h : highSurrogate high && lowSurrogate low) :
    joinSurrogates high low < 0x110000 := by
  simp only [highSurrogate, lowSurrogate, Bool.and_eq_true, decide_eq_true_eq] at h
  unfold joinSurrogates
  omega

/-- The code point of a pair of surrogates. -/
def joined (high low : Fin 0x110000) (h : highSurrogate high.val && lowSurrogate low.val) :
    Fin 0x110000 :=
  ⟨joinSurrogates high.val low.val, joinSurrogates_lt h⟩

/-- Two escapes that stand for the surrogates of a pair are one code point. -/
def joinEscapes : List (Fin 0x110000 × Bool) → PyStr
  | (u, true) :: (v, true) :: us =>
    if h : highSurrogate u.val && lowSurrogate v.val then joined u v h :: joinEscapes us
    else u :: joinEscapes ((v, true) :: us)
  | (u, _) :: us => u :: joinEscapes us
  | [] => []

/-- `scanstring`. -/
def scanString (cs : PyStr) : Option (PyStr × PyStr) :=
  (scanUnits cs).map fun r => (joinEscapes r.1, r.2)

/-! ### Numbers -/

def digit (c : Fin 0x110000) : Bool := 0x30 ≤ c.val && c.val ≤ 0x39

/-- The digits that a text begins with, and the rest of it. -/
def scanDigits (cs : PyStr) : List Char × PyStr :=
  ((cs.takeWhile digit).map fun c => Char.ofNat c.val, cs.dropWhile digit)

/-- `(?:0|[1-9][0-9]*)`. -/
def scanUnsigned : PyStr → Option (List Char × PyStr)
  | [] => none
  | c :: rest =>
    if c = codePoint '0' then some (['0'], rest)
    else if digit c then some (scanDigits (c :: rest))
    else none

/-- `-?(?:0|[1-9][0-9]*)`, the sign and the digits apart. -/
def scanInt (cs : PyStr) : Option (Bool × List Char × PyStr) :=
  let negative := cs.head? == some (codePoint '-')
  (scanUnsigned (if negative then cs.drop 1 else cs)).map fun r => (negative, r)

/-- `(\.[0-9]+)?`. -/
def scanFraction (cs : PyStr) : List Char × PyStr :=
  match cs with
  | [] => ([], cs)
  | c :: rest =>
    let (digits, rest) := scanDigits rest
    if c = codePoint '.' ∧ digits ≠ [] then ('.' :: digits, rest) else ([], cs)

/-- `[-+]?`. -/
def exponentSign (cs : PyStr) : List Char :=
  if cs.head? == some (codePoint '-') then ['-']
  else if cs.head? == some (codePoint '+') then ['+']
  else []

/-- `([eE][-+]?[0-9]+)?`. -/
def scanExponent (cs : PyStr) : List Char × PyStr :=
  match cs with
  | [] => ([], cs)
  | c :: rest =>
    let sign := exponentSign rest
    let (digits, rest) := scanDigits (rest.drop sign.length)
    if (c = codePoint 'e' ∨ c = codePoint 'E') ∧ digits ≠ [] then
      (Char.ofNat c.val :: (sign ++ digits), rest)
    else ([], cs)

def natOfDigits (digits : List Char) : Nat := Nat.ofDigitChars 10 digits 0

/-- An `int` that is read, unless it has too many digits. -/
def readInt (n : Int) : Except PyException PyJson :=
  if h : n.natAbs < 10 ^ maxStrDigits then .ok (.int ⟨n, h⟩) else .error .valueError

/-- `int` of a sign and digits. -/
def intOfDigits (negative : Bool) (digits : List Char) : Except PyException PyJson :=
  readInt (if negative then -(natOfDigits digits) else natOfDigits digits)

/-- `_match_number_unicode`. -/
def scanNumber (py : Interpreter) (cs : PyStr) : Except PyException (PyJson × PyStr) :=
  match scanInt cs with
  | none => .error .valueError
  | some (negative, digits, rest) =>
    let (fraction, rest) := scanFraction rest
    let (exponent, rest) := scanExponent rest
    if fraction = [] ∧ exponent = [] then (intOfDigits negative digits).map fun v => (v, rest)
    else
      let sign := if negative then ['-'] else []
      .ok (.float (py.float (sign ++ digits ++ fraction ++ exponent)), rest)

/-! ### Values -/

/-- A scanner: the value at the beginning of a text, and the rest of it. -/
abbrev Scanner := PyStr → Except PyException (PyJson × PyStr)

/-- `WHITESPACE`. -/
def whitespace (c : Fin 0x110000) : Bool :=
  c == codePoint ' ' || c == codePoint '\t' || c == codePoint '\n' || c == codePoint '\r'

def skipSpace (cs : PyStr) : PyStr := cs.dropWhile whitespace

/-- The items of an array, past its opening bracket and the first whitespace.  Every item takes a
character, so that fuel for every character is enough. -/
def scanItems (value : Scanner) : Nat → PyStr → Except PyException (List PyJson × PyStr)
  | 0, _ => .error .valueError
  | fuel + 1, cs => do
    let (v, cs) ← value cs
    match skipSpace cs with
    | [] => .error .valueError
    | c :: cs =>
      if c = codePoint ']' then return ([v], cs)
      else if c = codePoint ',' then do
        let (vs, cs) ← scanItems value fuel (skipSpace cs)
        return (v :: vs, cs)
      else .error .valueError

/-- `_parse_array_unicode`. -/
def scanArray (value : Scanner) (cs : PyStr) : Except PyException (PyJson × PyStr) :=
  match skipSpace cs with
  | [] => .error .valueError
  | c :: rest =>
    if c = codePoint ']' then return (.list [], rest)
    else (scanItems value (c :: rest).length (c :: rest)).map fun r => (.list r.1, r.2)

/-- A field of an object: its key, a colon and its value. -/
def scanField (value : Scanner) (cs : PyStr) : Except PyException ((PyStr × PyJson) × PyStr) :=
  match cs with
  | [] => .error .valueError
  | c :: cs =>
    if c = codePoint '"' then
      match scanString cs with
      | none => .error .valueError
      | some (key, cs) =>
        match skipSpace cs with
        | [] => .error .valueError
        | c :: cs =>
          if c = codePoint ':' then (value (skipSpace cs)).map fun r => ((key, r.1), r.2)
          else .error .valueError
    else .error .valueError

/-- The fields of an object, past its opening brace and the first whitespace. -/
def scanFields (value : Scanner) : Nat → PyStr → Except PyException (List (PyStr × PyJson) × PyStr)
  | 0, _ => .error .valueError
  | fuel + 1, cs => do
    let (kv, cs) ← scanField value cs
    match skipSpace cs with
    | [] => .error .valueError
    | c :: cs =>
      if c = codePoint '}' then return ([kv], cs)
      else if c = codePoint ',' then do
        let (kvs, cs) ← scanFields value fuel (skipSpace cs)
        return (kv :: kvs, cs)
      else .error .valueError

/-- `d[key] = value`: a key that is there keeps its place. -/
def setField (d : List (PyStr × PyJson)) (kv : PyStr × PyJson) : List (PyStr × PyJson) :=
  if d.any fun x => x.1 == kv.1 then d.map fun x => if x.1 = kv.1 then kv else x else d ++ [kv]

/-- `_parse_object_unicode`. -/
def scanObject (value : Scanner) (cs : PyStr) : Except PyException (PyJson × PyStr) :=
  match skipSpace cs with
  | [] => .error .valueError
  | c :: rest =>
    if c = codePoint '}' then return (.dict [], rest)
    else (scanFields value (c :: rest).length (c :: rest)).map fun r =>
      (.dict (r.1.foldl setField []), r.2)

/-- The literals, among them those of `parse_constant`. -/
def literals : List (List Char × PyJson) :=
  [("null".toList, .none), ("true".toList, .bool true), ("false".toList, .bool false),
    ("NaN".toList, .float .nan), ("Infinity".toList, .float (.infinity false)),
    ("-Infinity".toList, .float (.infinity true))]

def scanLiteral (cs : PyStr) : Option (PyJson × PyStr) :=
  (literals.find? fun l => (l.1.map codePoint).isPrefixOf cs).map fun l => (l.2, cs.drop l.1.length)

/-- `_scan_once_unicode`; `inner` scans what is nested in an array or object, unless the recursion
limit is reached. -/
def scanValue (py : Interpreter) (inner : Option Scanner) (cs : PyStr) :
    Except PyException (PyJson × PyStr) :=
  match cs with
  | [] => .error .valueError
  | c :: rest =>
    if c = codePoint '"' then
      match scanString rest with
      | none => .error .valueError
      | some (s, rest) => .ok (.str s, rest)
    else if c = codePoint '{' then
      match inner with
      | none => .error .recursionError
      | some value => scanObject value rest
    else if c = codePoint '[' then
      match inner with
      | none => .error .recursionError
      | some value => scanArray value rest
    else
      match scanLiteral cs with
      | some r => .ok r
      | none => scanNumber py cs

/-- `scan_once`, where `depth` more arrays and objects may be nested. -/
def scanOnce (py : Interpreter) : Nat → Scanner
  | 0 => scanValue py none
  | depth + 1 => scanValue py (some (scanOnce py depth))

/-- `JSONDecoder.decode`. -/
def decodeJson (py : Interpreter) (text : PyStr) : Except PyException PyJson := do
  let (v, rest) ← scanOnce py py.decodeDepth (skipSpace text)
  if skipSpace rest = [] then return v else .error .valueError

/-- `json.loads` of bytes. -/
def loads (py : Interpreter) (bs : Bytes) : Except PyException PyJson :=
  match decodeText bs with
  | none => .error .valueError
  | some text => decodeJson py text

/-! ### What it raises -/

/-- A computation raises only exceptions of this kind. -/
def RaisesOnly {α : Type} (kind : PyException → Prop) (res : Except PyException α) : Prop :=
  ∀ e, res = .error e → kind e

section RaisesOnly

variable {α β : Type} {kind : PyException → Prop}

theorem raisesOnly_ok (a : α) : RaisesOnly kind (.ok a) := nofun

theorem raisesOnly_error {e : PyException} (h : kind e) :
    RaisesOnly kind (.error e : Except PyException α) := by
  rintro e' ⟨⟩
  exact h

theorem RaisesOnly.bind {res : Except PyException α} {f : α → Except PyException β}
    (h : RaisesOnly kind res) (hf : ∀ a, RaisesOnly kind (f a)) : RaisesOnly kind (res >>= f) := by
  cases res with
  | error e => exact raisesOnly_error (h e rfl)
  | ok a => exact hf a

theorem RaisesOnly.map {res : Except PyException α} {f : α → β} (h : RaisesOnly kind res) :
    RaisesOnly kind (res.map f) := by
  cases res with
  | error e => exact raisesOnly_error (h e rfl)
  | ok a => exact raisesOnly_ok _

end RaisesOnly

/-- The exceptions of `json.loads`. -/
def OfLoads {α : Type} (res : Except PyException α) : Prop :=
  RaisesOnly (fun e => e = .valueError ∨ e = .recursionError) res

section Raises

variable {α : Type} {py : Interpreter} {value : Scanner}

theorem ofLoads_ok (a : α) : OfLoads (.ok a) := raisesOnly_ok a

theorem ofLoads_valueError : OfLoads (.error .valueError : Except PyException α) :=
  raisesOnly_error (.inl rfl)

theorem ofLoads_scanItems (hvalue : ∀ cs, OfLoads (value cs)) (fuel : Nat) (cs : PyStr) :
    OfLoads (scanItems value fuel cs) := by
  induction fuel generalizing cs with
  | zero => exact ofLoads_valueError
  | succ fuel ih =>
    refine RaisesOnly.bind (hvalue cs) fun ⟨v, cs⟩ => ?_
    show OfLoads (match skipSpace cs with | [] => _ | c :: cs => _)
    split
    · exact ofLoads_valueError
    · split_ifs
      · exact ofLoads_ok _
      · exact RaisesOnly.bind (ih _) fun ⟨vs, cs⟩ => ofLoads_ok _
      · exact ofLoads_valueError

theorem ofLoads_scanArray (hvalue : ∀ cs, OfLoads (value cs)) (cs : PyStr) :
    OfLoads (scanArray value cs) := by
  unfold scanArray
  split
  · exact ofLoads_valueError
  · split_ifs
    · exact ofLoads_ok _
    · exact RaisesOnly.map (ofLoads_scanItems hvalue _ _)

theorem ofLoads_scanField (hvalue : ∀ cs, OfLoads (value cs)) (cs : PyStr) :
    OfLoads (scanField value cs) := by
  unfold scanField
  split
  · exact ofLoads_valueError
  · split_ifs
    · split
      · exact ofLoads_valueError
      · split
        · exact ofLoads_valueError
        · split_ifs
          · exact RaisesOnly.map (hvalue _)
          · exact ofLoads_valueError
    · exact ofLoads_valueError

theorem ofLoads_scanFields (hvalue : ∀ cs, OfLoads (value cs)) (fuel : Nat) (cs : PyStr) :
    OfLoads (scanFields value fuel cs) := by
  induction fuel generalizing cs with
  | zero => exact ofLoads_valueError
  | succ fuel ih =>
    refine RaisesOnly.bind (ofLoads_scanField hvalue cs) fun ⟨kv, cs⟩ => ?_
    show OfLoads (match skipSpace cs with | [] => _ | c :: cs => _)
    split
    · exact ofLoads_valueError
    · split_ifs
      · exact ofLoads_ok _
      · exact RaisesOnly.bind (ih _) fun ⟨kvs, cs⟩ => ofLoads_ok _
      · exact ofLoads_valueError

theorem ofLoads_scanObject (hvalue : ∀ cs, OfLoads (value cs)) (cs : PyStr) :
    OfLoads (scanObject value cs) := by
  unfold scanObject
  split
  · exact ofLoads_valueError
  · split_ifs
    · exact ofLoads_ok _
    · exact RaisesOnly.map (ofLoads_scanFields hvalue _ _)

theorem ofLoads_readInt (n : Int) : OfLoads (readInt n) := by
  by_cases h : n.natAbs < 10 ^ maxStrDigits
  · rw [readInt, dif_pos h]
    exact ofLoads_ok _
  · rw [readInt, dif_neg h]
    exact ofLoads_valueError

theorem ofLoads_intOfDigits (negative : Bool) (digits : List Char) :
    OfLoads (intOfDigits negative digits) := ofLoads_readInt _

theorem ofLoads_scanNumber (cs : PyStr) : OfLoads (scanNumber py cs) := by
  unfold scanNumber
  split
  · exact ofLoads_valueError
  · next negative digits rest _ =>
    generalize scanFraction rest = fraction
    obtain ⟨fraction, rest⟩ := fraction
    generalize hexponent : scanExponent rest = exponent
    obtain ⟨exponent, rest⟩ := exponent
    by_cases hint : fraction = [] ∧ exponent = []
    · simp only [hexponent, hint, and_self, if_true]
      exact RaisesOnly.map (ofLoads_intOfDigits _ _)
    · simp only [hexponent, hint, if_false]
      exact ofLoads_ok _

theorem ofLoads_scanValue {inner : Option Scanner}
    (hinner : ∀ value ∈ inner, ∀ cs, OfLoads (value cs)) (cs : PyStr) :
    OfLoads (scanValue py inner cs) := by
  have hlimit : OfLoads (.error .recursionError : Except PyException (PyJson × PyStr)) :=
    raisesOnly_error (.inr rfl)
  unfold scanValue
  split
  · exact ofLoads_valueError
  · split_ifs
    · split
      · exact ofLoads_valueError
      · exact ofLoads_ok _
    · split
      · exact hlimit
      · exact ofLoads_scanObject (hinner _ rfl) _
    · split
      · exact hlimit
      · exact ofLoads_scanArray (hinner _ rfl) _
    · split
      · exact ofLoads_ok _
      · exact ofLoads_scanNumber _

theorem ofLoads_scanOnce (depth : Nat) (cs : PyStr) : OfLoads (scanOnce py depth cs) := by
  induction depth generalizing cs with
  | zero => exact ofLoads_scanValue (fun value hvalue => by cases hvalue) cs
  | succ depth ih =>
    refine ofLoads_scanValue (fun value hvalue => ?_) cs
    obtain rfl := Option.some.inj hvalue
    exact ih

/-- `json.loads` of bytes raises a `ValueError` or a `RecursionError`. -/
theorem ofLoads_loads (py : Interpreter) (bs : Bytes) : OfLoads (loads py bs) := by
  unfold loads
  split
  · exact ofLoads_valueError
  · refine RaisesOnly.bind (ofLoads_scanOnce _ _) fun ⟨v, rest⟩ => ?_
    show OfLoads (if skipSpace rest = [] then _ else _)
    split_ifs
    · exact ofLoads_ok _
    · exact ofLoads_valueError

end Raises

end TaskScheduler
