import TaskScheduler.Python.RoundTrip

/-! `json.loads` of the text of a value that is nested too deeply: the first item that is so ends
the scan at the recursion limit. -/

namespace TaskScheduler

/-- The scanner reaches the recursion limit in the text of the value, whatever follows. -/
def Exhausts (value : Scanner) (v : PyJson) : Prop :=
  ∀ rest, value (v.dumps.map codePoint ++ rest) = .error .recursionError

section Nested

variable {py : Interpreter} {value : Scanner} {depth : Nat}

theorem scanItems_exhausts (v : PyJson) (vs : List PyJson) (hread : ItemsRead py (v :: vs))
    (hscans : ∀ w ∈ v :: vs, w.depth ≤ depth → Scans value w)
    (hexhausts : ∀ w ∈ v :: vs, depth < w.depth → Exhausts value w)
    (hdepth : depth < depthItems (v :: vs)) (fuel : Nat) (hfuel : vs.length < fuel) (rest : PyStr) :
    scanItems value fuel ((dumpsItems (v :: vs)).map codePoint ++ rest) =
      .error .recursionError := by
  induction vs generalizing v fuel with
  | nil =>
    obtain ⟨fuel, rfl⟩ : ∃ n, fuel = n + 1 := ⟨fuel - 1, by omega⟩
    have hdeep : depth < v.depth := by
      rw [depthItems, depthItems] at hdepth
      omega
    rw [dumpsItems, List.map_append, List.append_assoc, scanItems,
      hexhausts v List.mem_cons_self hdeep]
    rfl
  | cons w ws ih =>
    obtain ⟨fuel, rfl⟩ : ∃ n, fuel = n + 1 := ⟨fuel - 1, by omega⟩
    rw [List.length_cons] at hfuel
    by_cases hdeep : depth < v.depth
    · rw [dumpsItems, List.map_append, List.append_assoc, scanItems,
        hexhausts v List.mem_cons_self hdeep]
      rfl
    · have hrest := ih w hread.2 (fun x hx => hscans x (List.mem_cons_of_mem _ hx))
        (fun x hx => hexhausts x (List.mem_cons_of_mem _ hx))
        (by rw [depthItems] at hdepth; omega) fuel (by omega)
      have hv := hscans v List.mem_cons_self (by omega) _ (stops_comma (codePoint ' ' ::
        ((dumpsItems (w :: ws)).map codePoint ++ rest)))
      have hspace : skipSpace ((dumpsItems (w :: ws)).map codePoint ++ rest) =
          (dumpsItems (w :: ws)).map codePoint ++ rest := by
        rw [dumpsItems, List.map_append, List.append_assoc]
        exact skipSpace_dumps hread.2.1 _
      rw [map_dumpsItems_cons, scanItems_more hv hspace, hrest]
      rfl

theorem scanArray_exhausts (items : List PyJson) (hread : ItemsRead py items)
    (hscans : ∀ w ∈ items, w.depth ≤ depth → Scans value w)
    (hexhausts : ∀ w ∈ items, depth < w.depth → Exhausts value w)
    (hdepth : depth < depthItems items) (rest : PyStr) :
    scanArray value ((dumpsItems items).map codePoint ++ codePoint ']' :: rest) =
      .error .recursionError := by
  cases items with
  | nil =>
    rw [depthItems] at hdepth
    omega
  | cons v vs =>
    obtain ⟨c, cs, htext, hspace, hbracket, hlength⟩ := dumpsItems_head hread
      (codePoint ']' :: rest)
    have hscan := scanItems_exhausts v vs hread hscans hexhausts hdepth (codePoint c :: cs).length
      hlength (codePoint ']' :: rest)
    rw [htext] at hscan ⊢
    unfold scanArray
    rw [skipSpace_head hspace]
    dsimp only
    rw [if_neg fun h => hbracket (codePoint_injective h), hscan]
    rfl

theorem scanField_exhausts (k : PyStr) {v : PyJson} (hv : v.FloatsRead py)
    (hexhausts : Exhausts value v) (rest : PyStr) :
    scanField value ((encodeString k ++ ": ".toList ++ v.dumps).map codePoint ++ rest) =
      .error .recursionError := by
  rw [scanField_text k hv, hexhausts rest]
  rfl

theorem scanFields_exhausts (kv : PyStr × PyJson) (kvs : List (PyStr × PyJson))
    (hread : FieldsRead py (kv :: kvs))
    (hscans : ∀ x ∈ kv :: kvs, x.2.depth ≤ depth → Scans value x.2)
    (hexhausts : ∀ x ∈ kv :: kvs, depth < x.2.depth → Exhausts value x.2)
    (hdepth : depth < depthFields (kv :: kvs)) (fuel : Nat) (hfuel : kvs.length < fuel)
    (rest : PyStr) : scanFields value fuel ((dumpsFields (kv :: kvs)).map codePoint ++ rest) =
      .error .recursionError := by
  induction kvs generalizing kv fuel with
  | nil =>
    obtain ⟨fuel, rfl⟩ : ∃ n, fuel = n + 1 := ⟨fuel - 1, by omega⟩
    obtain ⟨k, v⟩ := kv
    have hdeep : depth < v.depth := by
      rw [depthFields, depthFields] at hdepth
      omega
    rw [dumpsFields, List.map_append, List.append_assoc, scanFields,
      scanField_exhausts k hread.1 (hexhausts (k, v) List.mem_cons_self hdeep)]
    rfl
  | cons x kvs ih =>
    obtain ⟨fuel, rfl⟩ : ∃ n, fuel = n + 1 := ⟨fuel - 1, by omega⟩
    obtain ⟨k, v⟩ := kv
    rw [List.length_cons] at hfuel
    by_cases hdeep : depth < v.depth
    · rw [dumpsFields, List.map_append, List.append_assoc, scanFields,
        scanField_exhausts k hread.1 (hexhausts (k, v) List.mem_cons_self hdeep)]
      rfl
    · have hrest := ih x hread.2 (fun y hy => hscans y (List.mem_cons_of_mem _ hy))
        (fun y hy => hexhausts y (List.mem_cons_of_mem _ hy))
        (by rw [depthFields] at hdepth; omega) fuel (by omega)
      have hkv := scanField_dumps k hread.1 (hscans (k, v) List.mem_cons_self
        (Nat.le_of_not_lt hdeep)) (stops_comma (codePoint ' ' ::
          ((dumpsFields (x :: kvs)).map codePoint ++ rest)))
      have hspace : skipSpace ((dumpsFields (x :: kvs)).map codePoint ++ rest) =
          (dumpsFields (x :: kvs)).map codePoint ++ rest := by
        obtain ⟨cs, hcs⟩ := dumpsFields_head x kvs rest
        rw [hcs]
        exact skipSpace_head rfl cs
      rw [map_dumpsFields_cons, scanFields_more hkv hspace, hrest]
      rfl

theorem scanObject_exhausts (fields : List (PyStr × PyJson)) (hread : FieldsRead py fields)
    (hscans : ∀ x ∈ fields, x.2.depth ≤ depth → Scans value x.2)
    (hexhausts : ∀ x ∈ fields, depth < x.2.depth → Exhausts value x.2)
    (hdepth : depth < depthFields fields) (rest : PyStr) :
    scanObject value ((dumpsFields fields).map codePoint ++ codePoint '}' :: rest) =
      .error .recursionError := by
  cases fields with
  | nil =>
    rw [depthFields] at hdepth
    omega
  | cons kv kvs =>
    have hlength := length_dumpsFields (kv :: kvs)
    obtain ⟨cs, htext⟩ := dumpsFields_head kv kvs (codePoint '}' :: rest)
    have hscan := scanFields_exhausts kv kvs hread hscans hexhausts hdepth
      (codePoint '"' :: cs).length (by
        rw [← htext, List.length_append, List.length_map]
        rw [List.length_cons] at hlength
        omega) (codePoint '}' :: rest)
    rw [htext] at hscan ⊢
    unfold scanObject
    rw [skipSpace_head rfl]
    dsimp only
    rw [if_neg (by decide), hscan]
    rfl

/-- The text of a value is not scanned within less than the depth that it has. -/
theorem scanOnce_exhausts (depth : Nat) (v : PyJson) (hread : v.FloatsRead py)
    (hdepth : depth < v.depth) : Exhausts (scanOnce py depth) v := by
  induction depth generalizing v with
  | zero =>
    intro rest
    cases v with
    | list items => rfl
    | dict fields => rfl
    | none | bool b | int n | float x | str s => exact absurd hdepth (Nat.not_lt_zero _)
  | succ depth ih =>
    intro rest
    cases v with
    | list items =>
      rw [PyJson.depth] at hdepth
      rw [map_dumps_list]
      exact scanArray_exhausts items hread
        (fun w hw => scanOnce_dumps depth w (ItemsRead.mem hread w hw))
        (fun w hw => ih w (ItemsRead.mem hread w hw)) (by omega) rest
    | dict fields =>
      rw [PyJson.depth] at hdepth
      rw [map_dumps_dict]
      exact scanObject_exhausts fields hread
        (fun kv hkv => scanOnce_dumps depth kv.2 (FieldsRead.mem hread kv hkv))
        (fun kv hkv => ih kv.2 (FieldsRead.mem hread kv hkv)) (by omega) rest
    | none | bool b | int n | float x | str s => exact absurd hdepth (Nat.not_lt_zero _)

end Nested

/-- `json.loads` of what `json.dumps` wrote, where it is nested too deeply. -/
theorem loads_dumps_deep (py : Interpreter) (v : PyJson) (hread : v.FloatsRead py)
    (hdepth : py.decodeDepth < v.depth) :
    loads py (asciiBytes v.dumps) = .error .recursionError := by
  have hscan := scanOnce_exhausts py.decodeDepth v hread hdepth []
  have hspace := skipSpace_dumps hread []
  rw [List.append_nil] at hscan hspace
  rw [loads, decodeText_ascii (printed_dumps v)]
  simp only [decodeJson, hspace, hscan]
  rfl

end TaskScheduler
