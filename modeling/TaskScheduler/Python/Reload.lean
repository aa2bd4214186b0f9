import TaskScheduler.Python.Access
import TaskScheduler.Python.RoundTrip

/-! Which values come back from `json.dumps` and `json.loads` as they were, and what a lookup finds
in a dict that came back. -/

namespace TaskScheduler

/-- No high surrogate stands before a low one. -/
def PyStr.whole : PyStr → Bool
  | u :: v :: s => !(highSurrogate u.val && lowSurrogate v.val) && PyStr.whole (v :: s)
  | _ => true

mutual

/-- Every string and every key is whole. -/
def PyJson.whole : PyJson → Bool
  | .str s => s.whole
  | .list items => wholeItems items
  | .dict fields => wholeFields fields
  | _ => true

def wholeItems : List PyJson → Bool
  | [] => true
  | v :: vs => v.whole && wholeItems vs

def wholeFields : List (PyStr × PyJson) → Bool
  | [] => true
  | (k, v) :: kvs => k.whole && v.whole && wholeFields kvs

end

mutual

/-- The keys of every dict differ. -/
def PyJson.Distinct : PyJson → Prop
  | .list items => DistinctItems items
  | .dict fields => (fields.map (·.1)).Nodup ∧ DistinctFields fields
  | _ => True

def DistinctItems : List PyJson → Prop
  | [] => True
  | v :: vs => v.Distinct ∧ DistinctItems vs

def DistinctFields : List (PyStr × PyJson) → Prop
  | [] => True
  | (_, v) :: kvs => v.Distinct ∧ DistinctFields kvs

end

theorem length_rejoin_le (s : PyStr) : (rejoin s).length ≤ s.length := by
  induction s using rejoin.induct with
  | case1 u v s hpair ih =>
    rw [rejoin, dif_pos hpair]
    simp only [List.length_cons]
    omega
  | case2 u v s hpair ih =>
    rw [rejoin, dif_neg hpair, List.length_cons, List.length_cons]
    omega
  | case3 s hs =>
    rcases s with _ | ⟨u, _ | ⟨v, s⟩⟩
    · exact Nat.le_refl _
    · exact Nat.le_refl _
    · exact absurd rfl (hs u v s)

theorem rejoin_eq_iff (s : PyStr) : rejoin s = s ↔ s.whole = true := by
  induction s using rejoin.induct with
  | case1 u v s hpair ih =>
    have hlength := length_rejoin_le s
    rw [rejoin, dif_pos hpair, PyStr.whole, hpair]
    simp only [Bool.not_true, Bool.false_and, Bool.false_eq_true, iff_false]
    intro h
    have := congrArg List.length h
    simp only [List.length_cons] at this
    omega
  | case2 u v s hpair ih =>
    rw [rejoin, dif_neg hpair, PyStr.whole, List.cons_inj_right, ih]
    simp [hpair]
  | case3 s hs =>
    rcases s with _ | ⟨u, _ | ⟨v, s⟩⟩
    · exact iff_of_true rfl rfl
    · exact iff_of_true rfl rfl
    · exact absurd rfl (hs u v s)

/-- What is joined lies above the first plane, so that a string without such characters is what was
written. -/
theorem rejoin_eq_plane {s t : PyStr} (ht : ∀ c ∈ t, c.val < 0x10000) (h : rejoin s = t) :
    s = t := by
  induction s using rejoin.induct generalizing t with
  | case1 u v s hpair ih =>
    rw [rejoin, dif_pos hpair] at h
    have hlt := ht (joined u v hpair) (h ▸ List.mem_cons_self)
    have hval : (joined u v hpair).val = joinSurrogates u.val v.val := rfl
    unfold joinSurrogates at hval
    omega
  | case2 u v s hpair ih =>
    rw [rejoin, dif_neg hpair] at h
    subst h
    rw [← ih (fun c hc => ht c (List.mem_cons_of_mem _ hc)) rfl]
  | case3 s hs =>
    rcases s with _ | ⟨u, _ | ⟨v, s⟩⟩
    · exact h
    · exact h
    · exact absurd rfl (hs u v s)

theorem whole_of_not_surrogate {s : PyStr} (h : ∀ c ∈ s, surrogate c.val = false) :
    s.whole = true := by
  induction s with
  | nil => rfl
  | cons u s ih =>
    cases s with
    | nil => rfl
    | cons v s =>
      have hu := h u List.mem_cons_self
      rw [surrogate_eq, Bool.or_eq_false_iff] at hu
      rw [PyStr.whole, hu.1, Bool.false_and, Bool.not_false, Bool.true_and]
      exact ih fun c hc => h c (List.mem_cons_of_mem _ hc)

theorem length_reloadFields (kvs : List (PyStr × PyJson)) :
    (reloadFields kvs).length = kvs.length := by
  induction kvs with
  | nil => rfl
  | cons kv kvs ih =>
    obtain ⟨k, v⟩ := kv
    rw [reloadFields, List.length_cons, List.length_cons, ih]

section Fields

variable {d kvs : List (PyStr × PyJson)} {kv : PyStr × PyJson}

theorem setField_new (h : kv.1 ∉ d.map (·.1)) : setField d kv = d ++ [kv] := by
  have hany : (d.any fun x => x.1 == kv.1) = false := by
    rw [List.any_eq_false]
    intro x hx heq
    rw [beq_iff_eq] at heq
    exact h (heq ▸ List.mem_map_of_mem hx)
  rw [setField, hany]
  rfl

theorem setField_old (h : kv.1 ∈ d.map (·.1)) :
    setField d kv = d.map fun x => if x.1 = kv.1 then kv else x := by
  have hany : (d.any fun x => x.1 == kv.1) = true := by
    obtain ⟨x, hx, heq⟩ := List.mem_map.mp h
    exact List.any_eq_true.mpr ⟨x, hx, by simpa using heq⟩
  rw [setField, hany, if_pos rfl]

/-- Fields with keys of their own are appended. -/
theorem foldl_setField (h : (d ++ kvs).map (·.1) |>.Nodup) : kvs.foldl setField d = d ++ kvs := by
  induction kvs generalizing d with
  | nil => rw [List.foldl_nil, List.append_nil]
  | cons kv kvs ih =>
    have hnew : kv.1 ∉ d.map (·.1) := by
      rw [List.map_append, List.map_cons, List.nodup_append] at h
      intro hmem
      exact h.2.2 _ hmem _ List.mem_cons_self rfl
    rw [List.foldl_cons, setField_new hnew, ih (by simpa using h), List.append_assoc,
      List.singleton_append]

theorem length_foldl_setField (kvs d : List (PyStr × PyJson)) :
    (kvs.foldl setField d).length ≤ d.length + kvs.length := by
  induction kvs generalizing d with
  | nil => exact Nat.le_refl _
  | cons kv kvs ih =>
    have hrest := ih (setField d kv)
    have hone : (setField d kv).length ≤ d.length + 1 := by
      by_cases h : kv.1 ∈ d.map (·.1)
      · rw [setField_old h, List.length_map]
        omega
      · rw [setField_new h, List.length_append]
        exact Nat.le_refl _
    rw [List.foldl_cons, List.length_cons]
    omega

/-- Where no field is lost, each is appended. -/
theorem foldl_setField_of_length (h : (kvs.foldl setField d).length = d.length + kvs.length) :
    kvs.foldl setField d = d ++ kvs := by
  induction kvs generalizing d with
  | nil => rw [List.foldl_nil, List.append_nil]
  | cons kv kvs ih =>
    rw [List.foldl_cons, List.length_cons] at h
    by_cases hmem : kv.1 ∈ d.map (·.1)
    · have hle := length_foldl_setField kvs (setField d kv)
      have hsame : (setField d kv).length = d.length := by rw [setField_old hmem, List.length_map]
      omega
    · have hlength : (setField d kv).length = d.length + 1 := by
        rw [setField_new hmem, List.length_append]
        rfl
      rw [List.foldl_cons, ih (by omega), setField_new hmem, List.append_assoc,
        List.singleton_append]

theorem lookup_cons_other {k key : PyStr} (h : key ≠ k) (v : PyJson) :
    ((k, v) :: d).lookup key = d.lookup key := by
  rw [List.lookup_cons, beq_eq_false_iff_ne.mpr h]

theorem lookup_replace_self {k : PyStr} (v : PyJson) (h : k ∈ d.map (·.1)) :
    (d.map fun x => if x.1 = k then (k, v) else x).lookup k = some v := by
  induction d with
  | nil => cases h
  | cons x d ih =>
    obtain ⟨k', v'⟩ := x
    by_cases hk : k' = k
    · rw [List.map_cons, if_pos hk, List.lookup_cons_self]
    · rw [List.map_cons, if_neg hk, lookup_cons_other (Ne.symm hk)]
      exact ih ((List.mem_cons.mp h).resolve_left (Ne.symm hk))

theorem lookup_replace_other {k key : PyStr} (v : PyJson) (h : key ≠ k) :
    (d.map fun x => if x.1 = k then (k, v) else x).lookup key = d.lookup key := by
  induction d with
  | nil => rfl
  | cons x d ih =>
    obtain ⟨k', v'⟩ := x
    by_cases hk : k' = k
    · rw [List.map_cons, if_pos hk, lookup_cons_other h, ih, lookup_cons_other (hk ▸ h)]
    · rw [List.map_cons, if_neg hk, List.lookup_cons, List.lookup_cons, ih]

/-- A field is found that has been set. -/
theorem lookup_setField (kv : PyStr × PyJson) (key : PyStr) :
    (setField d kv).lookup key = if key = kv.1 then some kv.2 else d.lookup key := by
  obtain ⟨k, v⟩ := kv
  by_cases hmem : k ∈ d.map (·.1)
  · rw [setField_old hmem]
    by_cases hkey : key = k
    · rw [if_pos hkey, hkey]
      exact lookup_replace_self v hmem
    · rw [if_neg hkey]
      exact lookup_replace_other v hkey
  · rw [setField_new hmem, List.lookup_append]
    by_cases hkey : key = k
    · have hnone : d.lookup key = none := by
        rw [List.lookup_eq_none_iff]
        intro x hx
        rw [hkey, bne_iff_ne]
        rintro rfl
        exact hmem (List.mem_map_of_mem hx)
      rw [if_pos hkey, hnone, hkey]
      exact List.lookup_cons_self
    · rw [if_neg hkey, lookup_cons_other hkey, List.lookup_nil, Option.or_none]

theorem lookup_foldl_other {key : PyStr} (h : key ∉ kvs.map (·.1)) :
    (kvs.foldl setField d).lookup key = d.lookup key := by
  induction kvs generalizing d with
  | nil => rfl
  | cons kv kvs ih =>
    rw [List.map_cons, List.mem_cons, not_or] at h
    rw [List.foldl_cons, ih h.2, lookup_setField, if_neg h.1]

/-- Among fields with one of the key, that one is found. -/
theorem lookup_foldl {key : PyStr} (hkeys : (kvs.map (·.1)).count key ≤ 1) {v : PyJson}
    (h : kvs.lookup key = some v) : (kvs.foldl setField d).lookup key = some v := by
  induction kvs generalizing d with
  | nil => cases h
  | cons kv kvs ih =>
    obtain ⟨k, w⟩ := kv
    rw [List.foldl_cons]
    by_cases hkey : key = k
    · subst hkey
      rw [List.lookup_cons_self, Option.some.injEq] at h
      rw [List.map_cons, List.count_cons_self] at hkeys
      have hrest : key ∉ kvs.map (·.1) := List.count_eq_zero.mp (by omega)
      rw [lookup_foldl_other hrest, lookup_setField, if_pos rfl, h]
    · rw [lookup_cons_other hkey] at h
      rw [List.map_cons, List.count_cons_of_ne (Ne.symm hkey)] at hkeys
      exact ih hkeys h

end Fields

mutual

/-- A value with distinct keys comes back as it was exactly where it is whole. -/
theorem reload_eq_iff : ∀ v : PyJson, v.Distinct → (v.reload = v ↔ v.whole = true)
  | .none, _ => iff_of_true rfl rfl
  | .bool _, _ => iff_of_true rfl rfl
  | .int _, _ => iff_of_true rfl rfl
  | .float _, _ => iff_of_true rfl rfl
  | .str s, _ => by
    rw [PyJson.reload, PyJson.whole, PyJson.str.injEq]
    exact rejoin_eq_iff s
  | .list items, h => by
    rw [PyJson.reload, PyJson.whole, PyJson.list.injEq]
    exact reloadItems_eq_iff items h
  | .dict fields, ⟨hkeys, h⟩ => by
    rw [PyJson.reload, PyJson.whole, PyJson.dict.injEq, ← reloadFields_eq_iff fields h]
    constructor
    · intro heq
      have hall : (reloadFields fields).foldl setField [] = [] ++ reloadFields fields :=
        foldl_setField_of_length (by
          rw [heq, length_reloadFields, List.length_nil, Nat.zero_add])
      rwa [List.nil_append, heq, eq_comm] at hall
    · intro heq
      rw [heq, foldl_setField (by simpa using hkeys), List.nil_append]

theorem reloadItems_eq_iff : ∀ vs : List PyJson, DistinctItems vs →
    (reloadItems vs = vs ↔ wholeItems vs = true)
  | [], _ => iff_of_true rfl rfl
  | v :: vs, ⟨hv, hvs⟩ => by
    rw [reloadItems, wholeItems, List.cons.injEq, Bool.and_eq_true, reload_eq_iff v hv,
      reloadItems_eq_iff vs hvs]

theorem reloadFields_eq_iff : ∀ kvs : List (PyStr × PyJson), DistinctFields kvs →
    (reloadFields kvs = kvs ↔ wholeFields kvs = true)
  | [], _ => iff_of_true rfl rfl
  | (k, v) :: kvs, ⟨hv, hkvs⟩ => by
    rw [reloadFields, wholeFields, List.cons.injEq, Prod.mk.injEq, Bool.and_eq_true,
      Bool.and_eq_true, rejoin_eq_iff, reload_eq_iff v hv, reloadFields_eq_iff kvs hkvs]

end

section Lookup

variable {fields : List (PyStr × PyJson)} {key : PyStr}

/-- A key of the first plane is the key that it comes back from. -/
theorem lookup_reloadFields (hkey : ∀ c ∈ key, c.val < 0x10000) (hwhole : key.whole = true) :
    (reloadFields fields).lookup key = (fields.lookup key).map PyJson.reload := by
  induction fields with
  | nil => rfl
  | cons kv fields ih =>
    obtain ⟨k, v⟩ := kv
    rw [reloadFields]
    by_cases hk : key = k
    · subst hk
      rw [(rejoin_eq_iff key).mpr hwhole, List.lookup_cons_self, List.lookup_cons_self,
        Option.map_some]
    · have hne : key ≠ rejoin k := fun h => hk (rejoin_eq_plane hkey h.symm).symm
      rw [lookup_cons_other hne, lookup_cons_other hk, ih]

theorem count_reloadFields (hkey : ∀ c ∈ key, c.val < 0x10000) :
    ((reloadFields fields).map (·.1)).count key ≤ (fields.map (·.1)).count key := by
  induction fields with
  | nil => exact Nat.le_refl _
  | cons kv fields ih =>
    obtain ⟨k, v⟩ := kv
    rw [reloadFields, List.map_cons, List.map_cons]
    by_cases hk : rejoin k = key
    · rw [hk, rejoin_eq_plane hkey hk, List.count_cons_self, List.count_cons_self]
      omega
    · rw [List.count_cons_of_ne hk]
      exact ih.trans List.count_le_count_cons

/-- What a dict has under an ASCII key comes back under it. -/
theorem PyJson.item_reload (hkeys : (fields.map (·.1)).Nodup) {key : String} {v : PyJson}
    (hascii : (key.toList.all fun c => c.toNat < 0x80) = true)
    (h : fields.lookup (PyStr.ofString key) = some v) :
    (PyJson.dict fields).reload.item key = .ok v.reload := by
  have hlow : ∀ c ∈ PyStr.ofString key, c.val < 0x80 := by
    intro c hc
    obtain ⟨d, hd, rfl⟩ := List.mem_map.mp hc
    exact of_decide_eq_true (List.all_eq_true.mp hascii d hd)
  have hplane : ∀ c ∈ PyStr.ofString key, c.val < 0x10000 := fun c hc =>
    (hlow c hc).trans (by decide)
  have hwhole : (PyStr.ofString key).whole = true := by
    refine whole_of_not_surrogate fun c hc => ?_
    have := hlow c hc
    simp only [surrogate, Bool.and_eq_false_iff, decide_eq_false_iff_not]
    omega
  rw [PyJson.reload]
  refine item_dict_some (lookup_foldl ?_ ?_)
  · exact (count_reloadFields hplane).trans (List.nodup_iff_count.mp hkeys _)
  · rw [lookup_reloadFields hplane hwhole, h, Option.map_some]

end Lookup

end TaskScheduler
