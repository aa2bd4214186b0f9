import TaskScheduler.Python.Escapes
import TaskScheduler.Python.Numerals

/-! `json.loads` of what `json.dumps` has written: strings come back with their surrogates joined,
so that two keys may become one, and all else is as it was. -/

namespace TaskScheduler

mutual

/-- The value that comes back. -/
def PyJson.reload : PyJson → PyJson
  | .str s => .str (rejoin s)
  | .list items => .list (reloadItems items)
  | .dict fields => .dict ((reloadFields fields).foldl setField [])
  | v => v

def reloadItems : List PyJson → List PyJson
  | [] => []
  | v :: vs => v.reload :: reloadItems vs

def reloadFields : List (PyStr × PyJson) → List (PyStr × PyJson)
  | [] => []
  | (k, v) :: kvs => (rejoin k, v.reload) :: reloadFields kvs

end

mutual

/-- How many arrays and objects are nested. -/
def PyJson.depth : PyJson → Nat
  | .list items => depthItems items + 1
  | .dict fields => depthFields fields + 1
  | _ => 0

def depthItems : List PyJson → Nat
  | [] => 0
  | v :: vs => max v.depth (depthItems vs)

def depthFields : List (PyStr × PyJson) → Nat
  | [] => 0
  | (_, v) :: kvs => max v.depth (depthFields kvs)

end

mutual

/-- Every finite float has a text that `repr` writes and that `float` reads back. -/
def PyJson.FloatsRead (py : Interpreter) : PyJson → Prop
  | .float (.finite literal) => FloatText literal.val ∧ py.float literal.val = .finite literal
  | .list items => ItemsRead py items
  | .dict fields => FieldsRead py fields
  | _ => True

def ItemsRead (py : Interpreter) : List PyJson → Prop
  | [] => True
  | v :: vs => v.FloatsRead py ∧ ItemsRead py vs

def FieldsRead (py : Interpreter) : List (PyStr × PyJson) → Prop
  | [] => True
  | (_, v) :: kvs => v.FloatsRead py ∧ FieldsRead py kvs

end

section Value

variable {py : Interpreter} {inner : Option Scanner} {rest : PyStr}

theorem scanValue_literal : ∀ l ∈ literals,
    scanValue py inner (l.1.map codePoint ++ rest) = .ok (l.2, rest) := by
  intro l hl
  simp only [literals, List.mem_cons, List.not_mem_nil, or_false] at hl
  rcases hl with rfl | rfl | rfl | rfl | rfl | rfl <;> rfl

theorem codePoint_ne_digit {c d : Char} (hc : c.isDigit = false) (hd : d.isDigit = true) :
    codePoint d ≠ codePoint c := by
  intro h
  rw [codePoint_injective h, hc] at hd
  cases hd

theorem not_prefix {c d : Char} (hc : c.isDigit = false) (hd : d.isDigit = true)
    (cs : List Char) (text : PyStr) :
    ((c :: cs).map codePoint).isPrefixOf (codePoint d :: text) = false := by
  have hne : (codePoint c == codePoint d) = false :=
    beq_eq_false_iff_ne.mpr (codePoint_ne_digit hc hd).symm
  rw [List.map_cons, List.isPrefixOf, hne, Bool.false_and]

theorem scanLiteral_number (negative : Bool) {d : Char} (hd : d.isDigit = true) (cs : List Char) :
    scanLiteral ((signText negative ++ d :: cs).map codePoint ++ rest) = none := by
  have hfind : (literals.find? fun l => (l.1.map codePoint).isPrefixOf
      ((signText negative ++ d :: cs).map codePoint ++ rest)) = none := by
    rw [List.find?_eq_none]
    intro l hl
    rw [Bool.not_eq_true]
    simp only [literals, List.mem_cons, List.not_mem_nil, or_false] at hl
    cases negative with
    | false => rcases hl with rfl | rfl | rfl | rfl | rfl | rfl <;> exact not_prefix rfl hd _ _
    | true =>
      -- only `-Infinity` begins with a sign, and no digit follows it
      rcases hl with rfl | rfl | rfl | rfl | rfl | rfl
      · rfl
      · rfl
      · rfl
      · rfl
      · rfl
      · exact not_prefix (show 'I'.isDigit = false from rfl) hd _ _
  rw [scanLiteral, hfind]
  rfl

/-- What begins like a number is scanned as one. -/
theorem scanValue_number (negative : Bool) {d : Char} (hd : d.isDigit = true) (cs : List Char) :
    scanValue py inner ((signText negative ++ d :: cs).map codePoint ++ rest) =
      scanNumber py ((signText negative ++ d :: cs).map codePoint ++ rest) := by
  have hliteral : scanLiteral ((signText negative ++ d :: cs).map codePoint ++ rest) = none :=
    scanLiteral_number negative hd cs
  obtain ⟨c, text, htext, hquote, hbrace, hbracket⟩ : ∃ c text,
      (signText negative ++ d :: cs).map codePoint ++ rest = c :: text ∧
        c ≠ codePoint '"' ∧ c ≠ codePoint '{' ∧ c ≠ codePoint '[' := by
    cases negative with
    | false => exact ⟨_, _, rfl, codePoint_ne_digit rfl hd, codePoint_ne_digit rfl hd,
        codePoint_ne_digit rfl hd⟩
    | true => exact ⟨_, _, rfl, by decide, by decide, by decide⟩
  rw [htext] at hliteral ⊢
  unfold scanValue
  dsimp only
  rw [if_neg hquote, if_neg hbrace, if_neg hbracket, hliteral]

theorem scanValue_str (s : PyStr) :
    scanValue py inner ((encodeString s).map codePoint ++ rest) = .ok (.str (rejoin s), rest) := by
  have htext : (encodeString s).map codePoint ++ rest = codePoint '"' ::
      ((s.flatMap escapeChar).map codePoint ++ codePoint '"' :: rest) := by
    simp [encodeString]
  rw [htext]
  unfold scanValue
  dsimp only
  rw [if_pos rfl, scanString_escaped]

theorem scanValue_int (n : { n : Int // n.natAbs < 10 ^ maxStrDigits }) (hrest : Stops rest) :
    scanValue py inner (n.val.repr.toList.map codePoint ++ rest) = .ok (.int n, rest) := by
  rw [← scanNumber_int n hrest, toList_intRepr]
  obtain ⟨d, ds, hdigits, hd⟩ := (intDigits_toDigits n.val.natAbs).head
  rw [hdigits]
  exact scanValue_number _ hd ds

theorem scanValue_float {x : PyFloat} (hx : (PyJson.float x).FloatsRead py) (hrest : Stops rest) :
    scanValue py inner (x.dumps.map codePoint ++ rest) = .ok (.float x, rest) := by
  cases x with
  | nan => exact scanValue_literal ("NaN".toList, .float .nan) (by simp [literals])
  | infinity negative =>
    cases negative with
    | false =>
      exact scanValue_literal ("Infinity".toList, .float (.infinity false)) (by simp [literals])
    | true =>
      exact scanValue_literal ("-Infinity".toList, .float (.infinity true)) (by simp [literals])
  | finite literal =>
    obtain ⟨htext, hfloat⟩ := hx
    have hscan : scanNumber py (literal.val.map codePoint ++ rest) =
        .ok (.float (py.float literal.val), rest) := scanNumber_float htext hrest
    obtain ⟨negative, digits, fraction, exponent, hdigits, -, -, -, hparts⟩ := htext
    obtain ⟨d, ds, rfl, hd⟩ := hdigits.head
    rw [← hfloat, ← hscan, hfloat]
    show scanValue py inner (literal.val.map codePoint ++ rest) = _
    rw [hparts, List.append_assoc, List.append_assoc, List.cons_append]
    exact scanValue_number negative hd _

end Value

/-- The first character of a text: it begins no whitespace, and it closes no array. -/
theorem dumps_head {py : Interpreter} (v : PyJson) (hv : v.FloatsRead py) :
    ∃ c cs, v.dumps = c :: cs ∧ whitespace (codePoint c) = false ∧ c ≠ ']' := by
  have hdigit : ∀ (negative : Bool) (d : Char), d.isDigit = true → ∀ cs, ∃ c cs',
      signText negative ++ d :: cs = c :: cs' ∧ whitespace (codePoint c) = false ∧ c ≠ ']' := by
    intro negative d hd cs
    cases negative with
    | false =>
      have hspace : ∀ c, c.isDigit = false → (codePoint d == codePoint c) = false := fun c hc =>
        beq_eq_false_iff_ne.mpr (codePoint_ne_digit hc hd)
      refine ⟨d, cs, rfl, ?_, fun h => codePoint_ne_digit (c := ']') rfl hd (by rw [h])⟩
      rw [whitespace, hspace ' ' rfl, hspace '\t' rfl, hspace '\n' rfl, hspace '\r' rfl]
      rfl
    | true => exact ⟨'-', d :: cs, rfl, rfl, by decide⟩
  cases v with
  | none => exact ⟨_, _, rfl, rfl, by decide⟩
  | bool b => cases b <;> exact ⟨_, _, rfl, rfl, by decide⟩
  | int n =>
    obtain ⟨d, ds, hdigits, hd⟩ := (intDigits_toDigits n.val.natAbs).head
    show ∃ c cs, n.val.repr.toList = c :: cs ∧ _
    rw [toList_intRepr, hdigits]
    exact hdigit _ d hd ds
  | float x =>
    cases x with
    | nan => exact ⟨_, _, rfl, rfl, by decide⟩
    | infinity negative => cases negative <;> exact ⟨_, _, rfl, rfl, by decide⟩
    | finite literal =>
      obtain ⟨⟨negative, digits, fraction, exponent, hdigits, -, -, -, hparts⟩, -⟩ := hv
      obtain ⟨d, ds, rfl, hd⟩ := hdigits.head
      show ∃ c cs, literal.val = c :: cs ∧ _
      rw [hparts, List.append_assoc, List.append_assoc, List.cons_append]
      exact hdigit _ d hd _
  | str s => exact ⟨_, _, rfl, rfl, by decide⟩
  | list items => exact ⟨_, _, rfl, rfl, by decide⟩
  | dict fields => exact ⟨_, _, rfl, rfl, by decide⟩

theorem skipSpace_head {c : Fin 0x110000} (hc : whitespace c = false) (cs : PyStr) :
    skipSpace (c :: cs) = c :: cs := by
  rw [skipSpace, List.dropWhile_cons, hc]
  rfl

theorem skipSpace_dumps {py : Interpreter} {v : PyJson} (hv : v.FloatsRead py) (rest : PyStr) :
    skipSpace (v.dumps.map codePoint ++ rest) = v.dumps.map codePoint ++ rest := by
  obtain ⟨c, cs, hcs, hspace, -⟩ := dumps_head v hv
  rw [hcs]
  exact skipSpace_head hspace _

theorem length_dumpsItems {py : Interpreter} (vs : List PyJson) (hvs : ItemsRead py vs) :
    vs.length ≤ (dumpsItems vs).length := by
  induction vs with
  | nil => exact Nat.le_refl _
  | cons v vs ih =>
    obtain ⟨c, cs, hcs, -⟩ := dumps_head v hvs.1
    have hrest := ih hvs.2
    rw [dumpsItems, hcs]
    cases vs with
    | nil => simp
    | cons w ws =>
      simp only [List.length_append, List.length_cons, List.isEmpty_cons, Bool.false_eq_true,
        if_false] at hrest ⊢
      omega

theorem length_dumpsFields (kvs : List (PyStr × PyJson)) :
    kvs.length ≤ (dumpsFields kvs).length := by
  induction kvs with
  | nil => exact Nat.le_refl _
  | cons kv kvs ih =>
    obtain ⟨k, v⟩ := kv
    rw [dumpsFields, encodeString]
    cases kvs with
    | nil => simp
    | cons w ws =>
      simp only [List.length_append, List.length_cons, List.isEmpty_cons, Bool.false_eq_true,
        if_false] at ih ⊢
      omega

theorem stops_of {c : Fin 0x110000} (hdigit : digit c = false)
    (hc : c ≠ codePoint '.' ∧ c ≠ codePoint 'e' ∧ c ≠ codePoint 'E') (cs : PyStr) :
    Stops (c :: cs) := by
  intro d hd
  obtain rfl := Option.some.inj hd
  exact ⟨hdigit, hc⟩

theorem stops_comma (cs : PyStr) : Stops (codePoint ',' :: cs) := stops_of rfl (by decide) cs

theorem stops_bracket (cs : PyStr) : Stops (codePoint ']' :: cs) := stops_of rfl (by decide) cs

theorem stops_brace (cs : PyStr) : Stops (codePoint '}' :: cs) := stops_of rfl (by decide) cs

/-- The scanner reads the value from its text, whatever follows. -/
def Scans (value : Scanner) (v : PyJson) : Prop :=
  ∀ rest, Stops rest → value (v.dumps.map codePoint ++ rest) = .ok (v.reload, rest)

section Nested

variable {py : Interpreter} {value : Scanner}

theorem ItemsRead.mem {vs : List PyJson} (h : ItemsRead py vs) : ∀ v ∈ vs, v.FloatsRead py := by
  induction vs with
  | nil => exact nofun
  | cons v vs ih => exact List.forall_mem_cons.mpr ⟨h.1, ih h.2⟩

theorem FieldsRead.mem {kvs : List (PyStr × PyJson)} (h : FieldsRead py kvs) :
    ∀ kv ∈ kvs, kv.2.FloatsRead py := by
  induction kvs with
  | nil => exact nofun
  | cons kv kvs ih => exact List.forall_mem_cons.mpr ⟨h.1, ih h.2⟩

theorem depth_le_items {vs : List PyJson} : ∀ v ∈ vs, v.depth ≤ depthItems vs := by
  induction vs with
  | nil => exact nofun
  | cons v vs ih =>
    rw [depthItems]
    exact List.forall_mem_cons.mpr ⟨Nat.le_max_left _ _, fun w hw =>
      (ih w hw).trans (Nat.le_max_right _ _)⟩

theorem depth_le_fields {kvs : List (PyStr × PyJson)} :
    ∀ kv ∈ kvs, kv.2.depth ≤ depthFields kvs := by
  induction kvs with
  | nil => exact nofun
  | cons kv kvs ih =>
    obtain ⟨k, v⟩ := kv
    rw [depthFields]
    exact List.forall_mem_cons.mpr ⟨Nat.le_max_left _ _, fun w hw =>
      (ih w hw).trans (Nat.le_max_right _ _)⟩

theorem map_dumpsItems_cons (v w : PyJson) (ws : List PyJson) (cs : PyStr) :
    (dumpsItems (v :: w :: ws)).map codePoint ++ cs =
      v.dumps.map codePoint ++ codePoint ',' :: codePoint ' ' ::
        ((dumpsItems (w :: ws)).map codePoint ++ cs) := by
  rw [dumpsItems]
  simp

theorem map_dumpsFields_cons (k : PyStr) (v : PyJson) (x : PyStr × PyJson)
    (kvs : List (PyStr × PyJson)) (cs : PyStr) :
    (dumpsFields ((k, v) :: x :: kvs)).map codePoint ++ cs =
      (encodeString k ++ ": ".toList ++ v.dumps).map codePoint ++ codePoint ',' ::
        codePoint ' ' :: ((dumpsFields (x :: kvs)).map codePoint ++ cs) := by
  rw [dumpsFields]
  simp

theorem map_dumps_list (items : List PyJson) (rest : PyStr) :
    (PyJson.list items).dumps.map codePoint ++ rest =
      codePoint '[' :: ((dumpsItems items).map codePoint ++ codePoint ']' :: rest) := by
  rw [PyJson.dumps]
  simp

theorem map_dumps_dict (fields : List (PyStr × PyJson)) (rest : PyStr) :
    (PyJson.dict fields).dumps.map codePoint ++ rest =
      codePoint '{' :: ((dumpsFields fields).map codePoint ++ codePoint '}' :: rest) := by
  rw [PyJson.dumps]
  simp

/-- The first character of the items, and a text that is longer than they are many. -/
theorem dumpsItems_head {v : PyJson} {vs : List PyJson} (hread : ItemsRead py (v :: vs))
    (rest : PyStr) : ∃ c cs, (dumpsItems (v :: vs)).map codePoint ++ rest = codePoint c :: cs ∧
      whitespace (codePoint c) = false ∧ c ≠ ']' ∧ vs.length < (codePoint c :: cs).length := by
  have hlength := length_dumpsItems (v :: vs) hread
  obtain ⟨c, cs, hcs, hspace, hbracket⟩ := dumps_head v hread.1
  obtain ⟨cs, htext⟩ : ∃ cs, (dumpsItems (v :: vs)).map codePoint ++ rest = codePoint c :: cs := by
    rw [dumpsItems, hcs]
    exact ⟨_, rfl⟩
  refine ⟨c, cs, htext, hspace, hbracket, ?_⟩
  rw [← htext, List.length_append, List.length_map]
  rw [List.length_cons] at hlength
  omega

theorem scanItems_last {cs rest : PyStr} {v : PyJson} (fuel : Nat)
    (h : value cs = .ok (v, codePoint ']' :: rest)) :
    scanItems value (fuel + 1) cs = .ok ([v], rest) := by
  rw [scanItems, h]
  rfl

/-- Past an item and a comma, the rest is scanned. -/
theorem scanItems_more {cs cs' : PyStr} {v : PyJson} {fuel : Nat}
    (h : value cs = .ok (v, codePoint ',' :: codePoint ' ' :: cs'))
    (hspace : skipSpace cs' = cs') : scanItems value (fuel + 1) cs =
      (scanItems value fuel cs').map fun r => (v :: r.1, r.2) := by
  rw [scanItems, h]
  show (scanItems value fuel (skipSpace cs')).bind (fun r => .ok (v :: r.1, r.2)) = _
  rw [hspace]
  rfl

/-- The items are read one after the other, up to the bracket. -/
theorem scanItems_dumps (v : PyJson) (vs : List PyJson) (hread : ItemsRead py (v :: vs))
    (hscans : ∀ w ∈ v :: vs, Scans value w) (fuel : Nat) (hfuel : vs.length < fuel) (rest : PyStr) :
    scanItems value fuel ((dumpsItems (v :: vs)).map codePoint ++ codePoint ']' :: rest) =
      .ok (reloadItems (v :: vs), rest) := by
  induction vs generalizing v fuel with
  | nil =>
    obtain ⟨fuel, rfl⟩ : ∃ n, fuel = n + 1 := ⟨fuel - 1, by omega⟩
    have hv := hscans v List.mem_cons_self _ (stops_bracket rest)
    have htext : (dumpsItems [v]).map codePoint ++ codePoint ']' :: rest =
        v.dumps.map codePoint ++ codePoint ']' :: rest := by
      rw [dumpsItems]
      simp
    rw [htext]
    exact scanItems_last fuel hv
  | cons w ws ih =>
    obtain ⟨fuel, rfl⟩ : ∃ n, fuel = n + 1 := ⟨fuel - 1, by omega⟩
    have hrest := ih w hread.2 (fun x hx => hscans x (List.mem_cons_of_mem _ hx)) fuel
      (by rw [List.length_cons] at hfuel; omega)
    have hv := hscans v List.mem_cons_self _ (stops_comma (codePoint ' ' ::
      ((dumpsItems (w :: ws)).map codePoint ++ codePoint ']' :: rest)))
    have hspace : skipSpace ((dumpsItems (w :: ws)).map codePoint ++ codePoint ']' :: rest) =
        (dumpsItems (w :: ws)).map codePoint ++ codePoint ']' :: rest := by
      rw [dumpsItems, List.map_append, List.append_assoc]
      exact skipSpace_dumps hread.2.1 _
    rw [map_dumpsItems_cons]
    rw [scanItems_more hv hspace, hrest]
    rfl

theorem scanArray_dumps (items : List PyJson) (hread : ItemsRead py items)
    (hscans : ∀ w ∈ items, Scans value w) (rest : PyStr) :
    scanArray value ((dumpsItems items).map codePoint ++ codePoint ']' :: rest) =
      .ok (.list (reloadItems items), rest) := by
  cases items with
  | nil => rfl
  | cons v vs =>
    obtain ⟨c, cs, htext, hspace, hbracket, hlength⟩ := dumpsItems_head hread
      (codePoint ']' :: rest)
    have hscan := scanItems_dumps v vs hread hscans (codePoint c :: cs).length hlength rest
    rw [htext] at hscan ⊢
    unfold scanArray
    rw [skipSpace_head hspace]
    dsimp only
    rw [if_neg fun h => hbracket (codePoint_injective h), hscan]
    rfl

/-- Past its key, a field is scanned as its value is. -/
theorem scanField_text (k : PyStr) {v : PyJson} (hv : v.FloatsRead py) (rest : PyStr) :
    scanField value ((encodeString k ++ ": ".toList ++ v.dumps).map codePoint ++ rest) =
      (value (v.dumps.map codePoint ++ rest)).map fun r => ((rejoin k, r.1), r.2) := by
  have htext : (encodeString k ++ ": ".toList ++ v.dumps).map codePoint ++ rest =
      codePoint '"' :: ((k.flatMap escapeChar).map codePoint ++ codePoint '"' ::
        codePoint ':' :: codePoint ' ' :: (v.dumps.map codePoint ++ rest)) := by
    simp [encodeString]
  rw [htext]
  unfold scanField
  dsimp only
  rw [if_pos rfl, scanString_escaped]
  show (value (skipSpace (v.dumps.map codePoint ++ rest))).map _ = _
  rw [skipSpace_dumps hv]

theorem scanField_dumps (k : PyStr) {v : PyJson} (hv : v.FloatsRead py) (hscans : Scans value v)
    {rest : PyStr} (hrest : Stops rest) :
    scanField value ((encodeString k ++ ": ".toList ++ v.dumps).map codePoint ++ rest) =
      .ok ((rejoin k, v.reload), rest) := by
  rw [scanField_text k hv, hscans rest hrest]
  rfl

theorem scanFields_last {cs rest : PyStr} {kv : PyStr × PyJson} (fuel : Nat)
    (h : scanField value cs = .ok (kv, codePoint '}' :: rest)) :
    scanFields value (fuel + 1) cs = .ok ([kv], rest) := by
  rw [scanFields, h]
  rfl

theorem scanFields_more {cs cs' : PyStr} {kv : PyStr × PyJson} {fuel : Nat}
    (h : scanField value cs = .ok (kv, codePoint ',' :: codePoint ' ' :: cs'))
    (hspace : skipSpace cs' = cs') : scanFields value (fuel + 1) cs =
      (scanFields value fuel cs').map fun r => (kv :: r.1, r.2) := by
  rw [scanFields, h]
  show (scanFields value fuel (skipSpace cs')).bind (fun r => .ok (kv :: r.1, r.2)) = _
  rw [hspace]
  rfl

theorem dumpsFields_head (kv : PyStr × PyJson) (kvs : List (PyStr × PyJson)) (rest : PyStr) :
    ∃ cs, (dumpsFields (kv :: kvs)).map codePoint ++ rest = codePoint '"' :: cs :=
  ⟨_, rfl⟩

/-- The fields are read one after the other, up to the brace. -/
theorem scanFields_dumps (kv : PyStr × PyJson) (kvs : List (PyStr × PyJson))
    (hread : FieldsRead py (kv :: kvs)) (hscans : ∀ x ∈ kv :: kvs, Scans value x.2) (fuel : Nat)
    (hfuel : kvs.length < fuel) (rest : PyStr) :
    scanFields value fuel ((dumpsFields (kv :: kvs)).map codePoint ++ codePoint '}' :: rest) =
      .ok (reloadFields (kv :: kvs), rest) := by
  induction kvs generalizing kv fuel with
  | nil =>
    obtain ⟨fuel, rfl⟩ : ∃ n, fuel = n + 1 := ⟨fuel - 1, by omega⟩
    obtain ⟨k, v⟩ := kv
    have hkv := scanField_dumps k hread.1 (hscans (k, v) List.mem_cons_self) (stops_brace rest)
    have htext : dumpsFields [(k, v)] = encodeString k ++ ": ".toList ++ v.dumps := by
      rw [dumpsFields]
      simp
    rw [htext]
    exact scanFields_last fuel hkv
  | cons x kvs ih =>
    obtain ⟨fuel, rfl⟩ : ∃ n, fuel = n + 1 := ⟨fuel - 1, by omega⟩
    obtain ⟨k, v⟩ := kv
    have hrest := ih x hread.2 (fun y hy => hscans y (List.mem_cons_of_mem _ hy)) fuel
      (by rw [List.length_cons] at hfuel; omega)
    have hkv := scanField_dumps k hread.1 (hscans (k, v) List.mem_cons_self)
      (stops_comma (codePoint ' ' ::
        ((dumpsFields (x :: kvs)).map codePoint ++ codePoint '}' :: rest)))
    have hspace : skipSpace ((dumpsFields (x :: kvs)).map codePoint ++ codePoint '}' :: rest) =
        (dumpsFields (x :: kvs)).map codePoint ++ codePoint '}' :: rest := by
      obtain ⟨cs, hcs⟩ := dumpsFields_head x kvs (codePoint '}' :: rest)
      rw [hcs]
      exact skipSpace_head rfl cs
    rw [map_dumpsFields_cons]
    rw [scanFields_more hkv hspace, hrest]
    rfl

theorem scanObject_dumps (fields : List (PyStr × PyJson)) (hread : FieldsRead py fields)
    (hscans : ∀ x ∈ fields, Scans value x.2) (rest : PyStr) :
    scanObject value ((dumpsFields fields).map codePoint ++ codePoint '}' :: rest) =
      .ok (.dict ((reloadFields fields).foldl setField []), rest) := by
  cases fields with
  | nil => rfl
  | cons kv kvs =>
    have hlength := length_dumpsFields (kv :: kvs)
    obtain ⟨cs, htext⟩ := dumpsFields_head kv kvs (codePoint '}' :: rest)
    have hscan := scanFields_dumps kv kvs hread hscans (codePoint '"' :: cs).length (by
      rw [← htext, List.length_append, List.length_map]
      rw [List.length_cons] at hlength
      omega) rest
    rw [htext] at hscan ⊢
    unfold scanObject
    rw [skipSpace_head rfl]
    dsimp only
    rw [if_neg (by decide), hscan]
    rfl

/-- A value without arrays and objects is scanned at any depth. -/
theorem scanValue_atom {v : PyJson} (hread : v.FloatsRead py) (hdepth : v.depth = 0)
    (inner : Option Scanner) : Scans (scanValue py inner) v := by
  intro rest hrest
  cases v with
  | none => exact scanValue_literal ("null".toList, .none) (by simp [literals])
  | bool b =>
    cases b with
    | true => exact scanValue_literal ("true".toList, .bool true) (by simp [literals])
    | false => exact scanValue_literal ("false".toList, .bool false) (by simp [literals])
  | int n => exact scanValue_int n hrest
  | float x => exact scanValue_float hread hrest
  | str s => exact scanValue_str s
  | list items => rw [PyJson.depth] at hdepth; cases hdepth
  | dict fields => rw [PyJson.depth] at hdepth; cases hdepth

theorem scanValue_list (items : List PyJson) (hread : ItemsRead py items)
    (hscans : ∀ w ∈ items, Scans value w) : Scans (scanValue py (some value)) (.list items) := by
  intro rest hrest
  rw [map_dumps_list]
  exact scanArray_dumps items hread hscans rest

theorem scanValue_dict (fields : List (PyStr × PyJson)) (hread : FieldsRead py fields)
    (hscans : ∀ kv ∈ fields, Scans value kv.2) :
    Scans (scanValue py (some value)) (.dict fields) := by
  intro rest hrest
  rw [map_dumps_dict]
  exact scanObject_dumps fields hread hscans rest

/-- The text of a value is scanned to what comes back, within the depth that it has. -/
theorem scanOnce_dumps (depth : Nat) (v : PyJson) (hread : v.FloatsRead py)
    (hdepth : v.depth ≤ depth) : Scans (scanOnce py depth) v := by
  induction depth generalizing v with
  | zero => exact scanValue_atom hread (by omega) none
  | succ depth ih =>
    show Scans (scanValue py (some (scanOnce py depth))) v
    cases v with
    | list items =>
      rw [PyJson.depth] at hdepth
      refine scanValue_list items hread fun w hw => ih w (ItemsRead.mem hread w hw) ?_
      have := depth_le_items w hw
      omega
    | dict fields =>
      rw [PyJson.depth] at hdepth
      refine scanValue_dict fields hread fun kv hkv => ih kv.2 (FieldsRead.mem hread kv hkv) ?_
      have := depth_le_fields kv hkv
      omega
    | none => exact scanValue_atom hread rfl _
    | bool b => exact scanValue_atom hread rfl _
    | int n => exact scanValue_atom hread rfl _
    | float x => exact scanValue_atom hread rfl _
    | str s => exact scanValue_atom hread rfl _

end Nested

/-- `json.loads` of what `json.dumps` wrote. -/
theorem loads_dumps (py : Interpreter) (v : PyJson) (hread : v.FloatsRead py)
    (hdepth : v.depth ≤ py.decodeDepth) : loads py (asciiBytes v.dumps) = .ok v.reload := by
  have hscan := scanOnce_dumps py.decodeDepth v hread hdepth [] nofun
  have hspace := skipSpace_dumps hread []
  rw [List.append_nil] at hscan hspace
  rw [loads, decodeText_ascii (printed_dumps v)]
  simp only [decodeJson, hspace, hscan]
  rfl

end TaskScheduler
