import TaskScheduler.Python.Loads

/-! Lookups in values that `json.loads` has read, of which nothing says what shape they have. -/

namespace TaskScheduler

/-- `v[key]`, for a string. -/
def PyJson.item (v : PyJson) (key : String) : Except PyException PyJson :=
  match v with
  | .dict fields =>
    match fields.lookup (PyStr.ofString key) with
    | some w => .ok w
    | .none => .error .keyError
  | _ => .error .typeError

/-- `v[0]`; the keys of a dict are strings. -/
def PyJson.first : PyJson → Except PyException PyJson
  | .list (v :: _) => .ok v
  | .str (c :: _) => .ok (.str [c])
  | .list [] | .str [] => .error .indexError
  | .dict _ => .error .keyError
  | _ => .error .typeError

/-- `v.get(key, default)`. -/
def PyJson.get (v : PyJson) (key : String) (default : PyJson) : Except PyException PyJson :=
  match v with
  | .dict fields => .ok ((fields.lookup (PyStr.ofString key)).getD default)
  | _ => .error .attributeError

/-- The value is a dict, and what it has under the key, if anything, satisfies `P`. -/
def PyJson.Field (key : String) (P : PyJson → Prop) : PyJson → Prop
  | .dict fields => ∀ w, fields.lookup (PyStr.ofString key) = some w → P w
  | _ => False

/-- The value is a dict, or a list or string whose first item, if there is one, satisfies `P`. -/
def PyJson.First (P : PyJson → Prop) : PyJson → Prop
  | .list (v :: _) => P v
  | .str (c :: _) => P (.str [c])
  | .list [] | .str [] | .dict _ => True
  | _ => False

theorem PyJson.Field.congr {P Q : PyJson → Prop} (h : ∀ w, P w ↔ Q w) {v : PyJson} {key : String} :
    v.Field key P ↔ v.Field key Q := by
  rw [show P = Q from funext fun w => propext (h w)]

theorem PyJson.First.congr {P Q : PyJson → Prop} (h : ∀ w, P w ↔ Q w) {v : PyJson} :
    v.First P ↔ v.First Q := by
  rw [show P = Q from funext fun w => propext (h w)]

/-- `isinstance(v, int)`: the booleans are integers. -/
def PyJson.IsInt : PyJson → Prop
  | .int _ | .bool _ => True
  | _ => False

def PyJson.zero : PyJson := .int ⟨0, Nat.pow_pos (by decide)⟩

theorem PyJson.item_dict_some {fields : List (PyStr × PyJson)} {key : String} {w : PyJson}
    (h : fields.lookup (PyStr.ofString key) = some w) :
    (PyJson.dict fields).item key = .ok w := by
  simp only [PyJson.item, h]

theorem PyJson.item_ok {v w : PyJson} {key : String} : v.item key = .ok w ↔
    ∃ fields, v = .dict fields ∧ fields.lookup (PyStr.ofString key) = some w := by
  constructor
  · intro h
    unfold PyJson.item at h
    split at h
    · next fields =>
      split at h
      · next hlookup => exact ⟨fields, rfl, by rw [hlookup, Except.ok.inj h]⟩
      · cases h
    · cases h
  · rintro ⟨fields, rfl, hlookup⟩
    exact item_dict_some hlookup

end TaskScheduler
