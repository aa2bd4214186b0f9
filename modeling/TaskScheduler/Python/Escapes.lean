import TaskScheduler.Python.Loads

/-! The strings that `json.dumps` has written, as `json.loads` reads them: two surrogates that stand
side by side come back as the character that they encode. -/

namespace TaskScheduler

/-- A high surrogate and a low one after it are joined. -/
def rejoin : PyStr → PyStr
  | u :: v :: s =>
    if h : highSurrogate u.val && lowSurrogate v.val then joined u v h :: rejoin s
    else u :: rejoin (v :: s)
  | s => s

/-- A code point below 0x10000 that is not written as `\uXXXX`. -/
def shown (c : Fin 0x110000) : Bool :=
  escapeDct.any (fun kv => kv.1 == c) || (0x20 ≤ c.val && c.val ≤ 0x7e)

/-- The units that are scanned for a code point. -/
def scanned (c : Fin 0x110000) : List (Fin 0x110000 × Bool) :=
  if shown c then [(c, false)] else ((units c.val).filterMap codePoint?).map fun u => (u, true)

theorem hexDigit_digitChar : ∀ d < 16, hexDigit? (codePoint d.digitChar) = some d := by
  decide +kernel

/-- The four digits of a unit are read back. -/
theorem hexUnit_digits {u : Nat} (hu : u < 0x10000) :
    hexUnit (codePoint (u / 0x1000 % 0x10).digitChar) (codePoint (u / 0x100 % 0x10).digitChar)
      (codePoint (u / 0x10 % 0x10).digitChar) (codePoint (u % 0x10).digitChar) = codePoint? u := by
  have hdigit : ∀ k, hexDigit? (codePoint (k % 0x10).digitChar) = some (k % 0x10) := fun k =>
    hexDigit_digitChar _ (Nat.mod_lt k (by decide))
  have hvalue : (u / 0x1000 % 0x10 * 0x10 + u / 0x100 % 0x10) * 0x100 +
      (u / 0x10 % 0x10 * 0x10 + u % 0x10) = u := by
    omega
  simp only [hexUnit, hdigit, Option.bind_eq_bind, Option.bind_some, hvalue]

theorem scanUnits_unicodeEscape {u : Nat} (hu : u < 0x10000) (rest : PyStr) :
    scanUnits ((unicodeEscape u).map codePoint ++ rest) =
      (scanUnits rest).map fun r => ((⟨u, by omega⟩, true) :: r.1, r.2) := by
  have hpoint : codePoint? u = some ⟨u, by omega⟩ := dif_pos _
  rw [show (unicodeEscape u).map codePoint ++ rest = codePoint '\\' :: codePoint 'u' ::
    codePoint (u / 0x1000 % 0x10).digitChar :: codePoint (u / 0x100 % 0x10).digitChar ::
    codePoint (u / 0x10 % 0x10).digitChar :: codePoint (u % 0x10).digitChar :: rest from rfl,
    scanUnits.eq_def]
  dsimp only
  rw [if_neg (by decide), if_pos rfl, if_pos rfl, hexUnit_digits hu, hpoint]
  cases scanUnits rest <;> rfl

theorem scanUnits_escapes {us : List Nat} (hus : ∀ u ∈ us, u < 0x10000) (rest : PyStr) :
    scanUnits ((us.flatMap unicodeEscape).map codePoint ++ rest) = (scanUnits rest).map fun r =>
      ((us.filterMap codePoint?).map (fun u => (u, true)) ++ r.1, r.2) := by
  induction us with
  | nil => simp
  | cons u us ih =>
    have hu : u < 0x10000 := hus u List.mem_cons_self
    have hpoint : codePoint? u = some ⟨u, by omega⟩ := dif_pos _
    rw [List.flatMap_cons, List.map_append, List.append_assoc, scanUnits_unicodeEscape hu,
      ih fun v hv => hus v (List.mem_cons_of_mem _ hv), List.filterMap_cons, hpoint, Option.map_map]
    rfl

theorem codePoint_ofNat {c : Fin 0x110000} (h : c.val < 0xd800) :
    codePoint (Char.ofNat c.val) = c := by
  have hvalid : c.val.isValidChar := .inl h
  apply Fin.ext
  show (Char.ofNat c.val).toNat = c.val
  rw [Char.ofNat, dif_pos hvalid]
  rfl

theorem scanUnits_escapeDct : ∀ kv ∈ escapeDct, codePoint kv.2 ≠ codePoint 'u' ∧
    (backslash.find? fun x => codePoint x.1 == codePoint kv.2) = some (kv.2, kv.1) := by
  decide +kernel

/-- A character is scanned from its escape. -/
theorem scanUnits_escapeChar (c : Fin 0x110000) (rest : PyStr) :
    scanUnits ((escapeChar c).map codePoint ++ rest) =
      (scanUnits rest).map fun r => (scanned c ++ r.1, r.2) := by
  unfold escapeChar
  cases hfind : escapeDct.find? fun kv => kv.1 == c with
  | some kv =>
    have hmem := List.mem_of_find?_eq_some hfind
    have hc : kv.1 = c := by simpa using List.find?_some hfind
    have hshown : shown c = true := by
      unfold shown
      rw [Bool.or_eq_true, List.any_eq_true]
      exact .inl ⟨kv, hmem, by simpa using hc⟩
    obtain ⟨hu, hback⟩ := scanUnits_escapeDct kv hmem
    rw [scanned, if_pos hshown, show ['\\', kv.2].map codePoint ++ rest =
      codePoint '\\' :: codePoint kv.2 :: rest from rfl, scanUnits.eq_def]
    dsimp only
    rw [if_neg (by decide), if_pos rfl, if_neg hu, hback, hc]
    cases scanUnits rest <;> rfl
  | none =>
    have hnone : escapeDct.any (fun kv => kv.1 == c) = false := by
      simpa using List.find?_eq_none.mp hfind
    by_cases hprinted : 0x20 ≤ c.val ∧ c.val ≤ 0x7e
    · have hshown : shown c = true := by simp [shown, hprinted]
      have hchar : codePoint (Char.ofNat c.val) = c := codePoint_ofNat (by omega)
      have hquote : c ≠ codePoint '"' := by
        rintro rfl
        exact absurd hnone (by decide)
      have hback : c ≠ codePoint '\\' := by
        rintro rfl
        exact absurd hnone (by decide)
      dsimp only
      rw [if_pos hprinted, scanned, if_pos hshown, List.map_singleton, hchar, List.singleton_append,
        scanUnits.eq_def]
      dsimp only
      rw [if_neg hquote, if_neg hback, if_neg (by omega)]
      cases scanUnits rest <;> rfl
    · have hshown : shown c = false := by
        rw [shown, hnone, Bool.false_or, ← Bool.decide_and, decide_eq_false hprinted]
      dsimp only
      rw [if_neg hprinted, scanned, if_neg (by simp [hshown])]
      exact scanUnits_escapes (units_lt c.isLt) rest

theorem shown_lt {c : Fin 0x110000} (h : shown c = true) : c.val < 0x7f := by
  have hdct : ∀ kv ∈ escapeDct, kv.1.val < 0x7f := by decide
  rw [shown, Bool.or_eq_true, List.any_eq_true] at h
  rcases h with ⟨kv, hkv, hc⟩ | h
  · rw [← show kv.1 = c by simpa using hc]
    exact hdct kv hkv
  · rw [Bool.and_eq_true, decide_eq_true_eq, decide_eq_true_eq] at h
    omega

/-- The units of a code point: itself, or a pair of surrogates. -/
theorem scanned_cases (c : Fin 0x110000) :
    (∃ escaped, scanned c = [(c, escaped)] ∧ (surrogate c.val = true → escaped = true)) ∨
    surrogate c.val = false ∧ ∃ high low h,
      scanned c = [(high, true), (low, true)] ∧ joined high low h = c := by
  unfold scanned
  by_cases hshown : shown c = true
  · rw [if_pos hshown]
    refine .inl ⟨false, rfl, fun hc => ?_⟩
    have := shown_lt hshown
    simp only [surrogate, Bool.and_eq_true, decide_eq_true_eq] at hc
    omega
  · rw [if_neg hshown]
    by_cases hc : c.val < 0x10000
    · have hpoint : codePoint? c.val = some c := dif_pos c.isLt
      rw [units, if_pos hc, List.filterMap_cons, hpoint]
      exact .inl ⟨true, rfl, fun _ => rfl⟩
    · have hlt := c.isLt
      have hhigh : codePoint? (0xd800 + (c.val - 0x10000) / 0x400) =
          some ⟨0xd800 + (c.val - 0x10000) / 0x400, by omega⟩ := dif_pos _
      have hlow : codePoint? (0xdc00 + (c.val - 0x10000) % 0x400) =
          some ⟨0xdc00 + (c.val - 0x10000) % 0x400, by omega⟩ := dif_pos _
      have hpair : (highSurrogate (0xd800 + (c.val - 0x10000) / 0x400) &&
          lowSurrogate (0xdc00 + (c.val - 0x10000) % 0x400)) = true := by
        simp only [highSurrogate, lowSurrogate, Bool.and_eq_true, decide_eq_true_eq]
        omega
      rw [units, if_neg hc, List.filterMap_cons, hhigh, List.filterMap_cons, hlow]
      refine .inr ⟨?_, _, _, hpair, rfl, ?_⟩
      · simp only [surrogate, Bool.and_eq_false_iff, decide_eq_false_iff_not]
        omega
      · apply Fin.ext
        show joinSurrogates _ _ = c.val
        unfold joinSurrogates
        show 0x10000 + (0xd800 + (c.val - 0x10000) / 0x400 - 0xd800) * 0x400 +
          (0xdc00 + (c.val - 0x10000) % 0x400 - 0xdc00) = c.val
        omega

theorem surrogate_eq (c : Nat) : surrogate c = (highSurrogate c || lowSurrogate c) := by
  rw [Bool.eq_iff_iff]
  simp only [surrogate, highSurrogate, lowSurrogate, Bool.or_eq_true, Bool.and_eq_true,
    decide_eq_true_eq]
  omega

theorem joinEscapes_pair {u v : Fin 0x110000} (us : List (Fin 0x110000 × Bool))
    (h : highSurrogate u.val && lowSurrogate v.val) :
    joinEscapes ((u, true) :: (v, true) :: us) = joined u v h :: joinEscapes us := by
  rw [joinEscapes, dif_pos h]

/-- A unit stands alone that is no high surrogate, or that no low one follows. -/
theorem joinEscapes_alone {u : Fin 0x110000} {escaped : Bool} {us : List (Fin 0x110000 × Bool)}
    (h : highSurrogate u.val = true → ∀ x, us.head? = some x → lowSurrogate x.1.val = false) :
    joinEscapes ((u, escaped) :: us) = u :: joinEscapes us := by
  cases escaped with
  | false => rw [joinEscapes]; simp
  | true =>
    match us with
    | [] => rfl
    | (v, false) :: us => rw [joinEscapes]; simp
    | (v, true) :: us =>
      have hpair : ¬(highSurrogate u.val && lowSurrogate v.val) = true := by
        rw [Bool.and_eq_true]
        rintro ⟨hu, hv⟩
        rw [h hu (v, true) rfl] at hv
        cases hv
      rw [joinEscapes, dif_neg hpair]

theorem rejoin_alone {u : Fin 0x110000} {s : PyStr} (h : highSurrogate u.val = true →
      ∀ v, s.head? = some v → lowSurrogate v.val = false) : rejoin (u :: s) = u :: rejoin s := by
  cases s with
  | nil => rfl
  | cons v s =>
    have hpair : ¬(highSurrogate u.val && lowSurrogate v.val) = true := by
      rw [Bool.and_eq_true]
      rintro ⟨hu, hv⟩
      rw [h hu v rfl] at hv
      cases hv
    rw [rejoin, dif_neg hpair]

/-- The first unit of a code point is a low surrogate if the code point is. -/
theorem head_scanned (v : Fin 0x110000) (s : PyStr) : ∃ x, ((v :: s).flatMap scanned).head? =
    some x ∧ lowSurrogate x.1.val = lowSurrogate v.val := by
  rw [List.flatMap_cons]
  rcases scanned_cases v with ⟨escaped, hv, -⟩ | ⟨hsurrogate, high, low, hpair, hv, -⟩
  · exact ⟨(v, escaped), by rw [hv]; rfl, rfl⟩
  · refine ⟨(high, true), by rw [hv]; rfl, ?_⟩
    rw [surrogate_eq, Bool.or_eq_false_iff] at hsurrogate
    rw [Bool.and_eq_true] at hpair
    rw [hsurrogate.2]
    exact high_not_low hpair.1

/-- A code point stands alone that is no high surrogate, or that no low one follows. -/
theorem joinEscapes_scanned_alone {u : Fin 0x110000} {s : PyStr}
    (h : highSurrogate u.val = true → ∀ v, s.head? = some v → lowSurrogate v.val = false) :
    joinEscapes (scanned u ++ s.flatMap scanned) = u :: joinEscapes (s.flatMap scanned) := by
  rcases scanned_cases u with ⟨escaped, hu, -⟩ | ⟨-, high, low, hpair, hu, hjoined⟩
  · rw [hu, List.singleton_append]
    refine joinEscapes_alone fun hhigh x hx => ?_
    cases s with
    | nil => cases hx
    | cons v s =>
      obtain ⟨y, hy, hlow⟩ := head_scanned v s
      rw [hy] at hx
      obtain rfl := Option.some.inj hx
      rw [hlow]
      exact h hhigh v rfl
  · rw [hu, ← hjoined]
    exact joinEscapes_pair _ hpair

theorem scanned_surrogate {u : Fin 0x110000} (h : surrogate u.val = true) :
    scanned u = [(u, true)] := by
  rcases scanned_cases u with ⟨escaped, hu, hescaped⟩ | ⟨hnone, -⟩
  · rw [hu, hescaped h]
  · rw [h] at hnone
    cases hnone

/-- What `joinEscapes` makes of the units of a string. -/
theorem joinEscapes_scanned (s : PyStr) : joinEscapes (s.flatMap scanned) = rejoin s := by
  induction s using rejoin.induct with
  | case1 u v s hpair ih =>
    have h := hpair
    rw [Bool.and_eq_true] at h
    have hu : surrogate u.val = true := by rw [surrogate_eq, h.1, Bool.true_or]
    have hv : surrogate v.val = true := by rw [surrogate_eq, h.2, Bool.or_true]
    rw [rejoin, dif_pos hpair, ← ih, List.flatMap_cons, List.flatMap_cons, scanned_surrogate hu,
      scanned_surrogate hv]
    exact joinEscapes_pair _ hpair
  | case2 u v s hpair ih =>
    have h : highSurrogate u.val = true →
        ∀ w, (v :: s).head? = some w → lowSurrogate w.val = false := by
      rintro hu w hw
      obtain rfl := Option.some.inj hw
      rw [Bool.and_eq_true, hu] at hpair
      simpa using hpair
    rw [rejoin_alone h, ← ih, List.flatMap_cons, joinEscapes_scanned_alone h]
  | case3 s hs =>
    -- no pair is left to join: at most one code point
    rcases s with - | ⟨u, - | ⟨v, s⟩⟩
    · rfl
    · refine joinEscapes_scanned_alone (s := []) ?_
      rintro - w hw
      exact absurd hw (Option.not_mem_none w)
    · exact absurd rfl (hs u v s)

theorem scanUnits_escaped (s rest : PyStr) :
    scanUnits ((s.flatMap escapeChar).map codePoint ++ codePoint '"' :: rest) =
      some (s.flatMap scanned, rest) := by
  induction s with
  | nil =>
    rw [List.flatMap_nil, List.map_nil, List.nil_append, scanUnits.eq_def]
    rfl
  | cons c s ih =>
    rw [List.flatMap_cons, List.map_append, List.append_assoc, scanUnits_escapeChar, ih]
    rfl

/-- A string comes back with its surrogates joined. -/
theorem scanString_escaped (s rest : PyStr) :
    scanString ((s.flatMap escapeChar).map codePoint ++ codePoint '"' :: rest) =
      some (rejoin s, rest) := by
  rw [scanString, scanUnits_escaped, ← joinEscapes_scanned]
  rfl

end TaskScheduler
