import TaskScheduler.Config.DateTime
import TaskScheduler.Python.Reload

/-! Python values that `json.dumps` is called with: those that JSON has, with integers of any
length, and datetimes, which it rejects. -/

namespace TaskScheduler

/-- A datetime, naive or with an offset from UTC. -/
structure Datetime where
  wall : Wall
  utcoffset : Option { offset : Int // |offset| < dayMicros }
  deriving DecidableEq

/-- The offset of `datetime.UTC`. -/
def utcOffset : { offset : Int // |offset| < dayMicros } := ⟨0, by decide⟩

/-- `dt if dt.tzinfo is not None else dt.replace(tzinfo=UTC)`. -/
def Datetime.orUtc (dt : Datetime) : Datetime :=
  { dt with utcoffset := dt.utcoffset.or (some utcOffset) }

/-- The instant that a datetime names, where a naive one is read in UTC. -/
def Datetime.instant (dt : Datetime) : Int := dt.wall.micros - dt.utcoffset.elim 0 (·.val)

theorem Datetime.instant_orUtc (dt : Datetime) : dt.orUtc.instant = dt.instant := by
  obtain ⟨wall, utcoffset⟩ := dt
  cases utcoffset <;> rfl

inductive PyValue
  | none
  | bool (b : Bool)
  | int (n : Int)
  | float (x : PyFloat)
  | str (s : PyStr)
  | list (items : List PyValue)
  | dict (fields : List (PyStr × PyValue))
  | datetime (dt : Datetime)

mutual

/-- The value that a JSON value is. -/
def PyJson.value : PyJson → PyValue
  | .none => .none
  | .bool b => .bool b
  | .int n => .int n.val
  | .float x => .float x
  | .str s => .str s
  | .list items => .list (valueItems items)
  | .dict fields => .dict (valueFields fields)

def valueItems : List PyJson → List PyValue
  | [] => []
  | v :: vs => v.value :: valueItems vs

def valueFields : List (PyStr × PyJson) → List (PyStr × PyValue)
  | [] => []
  | (k, v) :: kvs => (k, v.value) :: valueFields kvs

end

mutual

/-- What `json.dumps` encodes, where `depth` more lists and dicts may be nested: a `ValueError` for
an integer with too many digits, and a `TypeError` for a datetime. -/
def PyValue.toJson (depth : Nat) : PyValue → Except PyException PyJson
  | .none => .ok .none
  | .bool b => .ok (.bool b)
  | .int n => readInt n
  | .float x => .ok (.float x)
  | .str s => .ok (.str s)
  | .list items =>
    match depth with
    | 0 => .error .recursionError
    | depth + 1 => (toJsonItems depth items).map .list
  | .dict fields =>
    match depth with
    | 0 => .error .recursionError
    | depth + 1 => (toJsonFields depth fields).map .dict
  | .datetime _ => .error .typeError

def toJsonItems (depth : Nat) : List PyValue → Except PyException (List PyJson)
  | [] => .ok []
  | v :: vs => do
    let w ← v.toJson depth
    let ws ← toJsonItems depth vs
    return w :: ws

def toJsonFields (depth : Nat) : List (PyStr × PyValue) → Except PyException (List (PyStr × PyJson))
  | [] => .ok []
  | (k, v) :: kvs => do
    let w ← v.toJson depth
    let kws ← toJsonFields depth kvs
    return (k, w) :: kws

end

mutual

/-- What holds of every value that Python has: the keys of a dict differ, and the text of a float is
one that `repr` writes and `float` reads back. -/
def PyValue.Valid (py : Interpreter) : PyValue → Prop
  | .float (.finite literal) => FloatText literal.val ∧ py.float literal.val = .finite literal
  | .list items => ValidItems py items
  | .dict fields => (fields.map (·.1)).Nodup ∧ ValidFields py fields
  | _ => True

def ValidItems (py : Interpreter) : List PyValue → Prop
  | [] => True
  | v :: vs => v.Valid py ∧ ValidItems py vs

def ValidFields (py : Interpreter) : List (PyStr × PyValue) → Prop
  | [] => True
  | (_, v) :: kvs => v.Valid py ∧ ValidFields py kvs

end

theorem keys_valueFields (kws : List (PyStr × PyJson)) :
    (valueFields kws).map (·.1) = kws.map (·.1) := by
  induction kws with
  | nil => rfl
  | cons kw kws ih =>
    obtain ⟨k, w⟩ := kw
    rw [valueFields, List.map_cons, List.map_cons, ih]

theorem lookup_valueFields (kws : List (PyStr × PyJson)) (key : PyStr) :
    (valueFields kws).lookup key = (kws.lookup key).map PyJson.value := by
  induction kws with
  | nil => rfl
  | cons kw kws ih =>
    obtain ⟨k, w⟩ := kw
    rw [valueFields, List.lookup_cons, List.lookup_cons]
    cases key == k with
    | true => rfl
    | false => exact ih

/-! ### Encoding -/

theorem ok_bind {ε α β : Type} {x : Except ε α} {f : α → Except ε β} {b : β} :
    x >>= f = .ok b ↔ ∃ a, x = .ok a ∧ f a = .ok b := by
  cases x with
  | error e => exact ⟨nofun, fun ⟨a, h, _⟩ => by cases h⟩
  | ok a => exact ⟨fun h => ⟨a, rfl, h⟩, fun ⟨a', h, h'⟩ => by cases h; exact h'⟩

theorem ok_mapError {ε ε' α : Type} {x : Except ε α} {f : ε → ε'} {a : α} :
    x.mapError f = .ok a ↔ x = .ok a := by
  cases x with
  | error e => exact ⟨nofun, nofun⟩
  | ok b =>
    rw [Except.mapError]
    exact ⟨fun h => by cases h; rfl, fun h => by cases h; rfl⟩

theorem ok_map {ε α β : Type} {x : Except ε α} {f : α → β} {b : β} :
    x.map f = .ok b ↔ ∃ a, x = .ok a ∧ f a = b := by
  cases x with
  | error e => exact ⟨nofun, fun ⟨a, h, _⟩ => by cases h⟩
  | ok a =>
    constructor
    · intro h
      exact ⟨a, rfl, Except.ok.inj h⟩
    · rintro ⟨a', h, rfl⟩
      obtain rfl := Except.ok.inj h
      rfl

theorem readInt_ok {n : Int} {w : PyJson} (h : readInt n = .ok w) :
    w.value = .int n ∧ w.depth = 0 := by
  by_cases hn : n.natAbs < 10 ^ maxStrDigits
  · rw [readInt, dif_pos hn] at h
    obtain rfl := Except.ok.inj h
    exact ⟨rfl, rfl⟩
  · rw [readInt, dif_neg hn] at h
    cases h

mutual

/-- A JSON value is encoded as it is, within the depth that it has. -/
theorem toJson_value : ∀ (w : PyJson) (depth : Nat), w.depth ≤ depth → w.value.toJson depth = .ok w
  | .none, _, _ => rfl
  | .bool _, _, _ => rfl
  | .int n, _, _ => readInt_eq n
  | .float _, _, _ => rfl
  | .str _, _, _ => rfl
  | .list items, 0, h => by
    rw [PyJson.depth] at h
    omega
  | .list items, depth + 1, h => by
    rw [PyJson.depth] at h
    rw [PyJson.value, PyValue.toJson, toJsonItems_value items depth (by omega)]
    rfl
  | .dict fields, 0, h => by
    rw [PyJson.depth] at h
    omega
  | .dict fields, depth + 1, h => by
    rw [PyJson.depth] at h
    rw [PyJson.value, PyValue.toJson, toJsonFields_value fields depth (by omega)]
    rfl

theorem toJsonItems_value : ∀ (ws : List PyJson) (depth : Nat), depthItems ws ≤ depth →
    toJsonItems depth (valueItems ws) = .ok ws
  | [], _, _ => rfl
  | w :: ws, depth, h => by
    rw [depthItems] at h
    rw [valueItems, toJsonItems, toJson_value w depth (by omega),
      toJsonItems_value ws depth (by omega)]
    rfl

theorem toJsonFields_value : ∀ (kws : List (PyStr × PyJson)) (depth : Nat),
    depthFields kws ≤ depth → toJsonFields depth (valueFields kws) = .ok kws
  | [], _, _ => rfl
  | (k, w) :: kws, depth, h => by
    rw [depthFields] at h
    rw [valueFields, toJsonFields, toJson_value w depth (by omega),
      toJsonFields_value kws depth (by omega)]
    rfl

end

mutual

/-- What is encoded is a JSON value, nested no deeper than is allowed. -/
theorem value_of_toJson : ∀ (v : PyValue) (depth : Nat) (w : PyJson), v.toJson depth = .ok w →
    w.value = v ∧ w.depth ≤ depth
  | .none, _, w => by
    intro h
    obtain rfl := Except.ok.inj h
    exact ⟨rfl, Nat.zero_le _⟩
  | .bool b, _, w => by
    intro h
    obtain rfl := Except.ok.inj h
    exact ⟨rfl, Nat.zero_le _⟩
  | .int n, depth, w => by
    intro h
    rw [PyValue.toJson] at h
    obtain ⟨hvalue, hdepth⟩ := readInt_ok h
    exact ⟨hvalue, by omega⟩
  | .float x, _, w => by
    intro h
    obtain rfl := Except.ok.inj h
    exact ⟨rfl, Nat.zero_le _⟩
  | .str s, _, w => by
    intro h
    obtain rfl := Except.ok.inj h
    exact ⟨rfl, Nat.zero_le _⟩
  | .list items, 0, w => nofun
  | .list items, depth + 1, w => by
    intro h
    obtain ⟨ws, hws, rfl⟩ := ok_map.mp h
    obtain ⟨hvalue, hdepth⟩ := valueItems_of_toJson items depth ws hws
    rw [PyJson.value, PyJson.depth, hvalue]
    exact ⟨rfl, by omega⟩
  | .dict fields, 0, w => nofun
  | .dict fields, depth + 1, w => by
    intro h
    obtain ⟨kws, hkws, rfl⟩ := ok_map.mp h
    obtain ⟨hvalue, hdepth⟩ := valueFields_of_toJson fields depth kws hkws
    rw [PyJson.value, PyJson.depth, hvalue]
    exact ⟨rfl, by omega⟩
  | .datetime dt, _, w => nofun

theorem valueItems_of_toJson : ∀ (vs : List PyValue) (depth : Nat) (ws : List PyJson),
    toJsonItems depth vs = .ok ws → valueItems ws = vs ∧ depthItems ws ≤ depth
  | [], _, ws => by
    intro h
    obtain rfl := Except.ok.inj h
    exact ⟨rfl, Nat.zero_le _⟩
  | v :: vs, depth, ws => by
    intro h
    obtain ⟨w, hw, h⟩ := ok_bind.mp h
    obtain ⟨ws', hws, h⟩ := ok_bind.mp h
    obtain rfl := Except.ok.inj h
    obtain ⟨hvalue, hdepth⟩ := value_of_toJson v depth w hw
    obtain ⟨hvalues, hdepths⟩ := valueItems_of_toJson vs depth ws' hws
    rw [valueItems, depthItems, hvalue, hvalues]
    exact ⟨rfl, by omega⟩

theorem valueFields_of_toJson : ∀ (kvs : List (PyStr × PyValue)) (depth : Nat)
    (kws : List (PyStr × PyJson)), toJsonFields depth kvs = .ok kws →
      valueFields kws = kvs ∧ depthFields kws ≤ depth
  | [], _, kws => by
    intro h
    obtain rfl := Except.ok.inj h
    exact ⟨rfl, Nat.zero_le _⟩
  | (k, v) :: kvs, depth, kws => by
    intro h
    obtain ⟨w, hw, h⟩ := ok_bind.mp h
    obtain ⟨kws', hkws, h⟩ := ok_bind.mp h
    obtain rfl := Except.ok.inj h
    obtain ⟨hvalue, hdepth⟩ := value_of_toJson v depth w hw
    obtain ⟨hvalues, hdepths⟩ := valueFields_of_toJson kvs depth kws' hkws
    rw [valueFields, depthFields, hvalue, hvalues]
    exact ⟨rfl, by omega⟩

end

/-! ### Values that JSON has -/

mutual

theorem value_injective : ∀ v w : PyJson, v.value = w.value → v = w
  | .none, w, h => by cases w <;> simp_all [PyJson.value]
  | .bool b, w, h => by cases w <;> simp_all [PyJson.value]
  | .int n, w, h => by cases w <;> simp_all [PyJson.value, Subtype.ext_iff]
  | .float x, w, h => by cases w <;> simp_all [PyJson.value]
  | .str s, w, h => by cases w <;> simp_all [PyJson.value]
  | .list items, w, h => by
    cases w with
    | list items' =>
      rw [PyJson.value, PyJson.value, PyValue.list.injEq] at h
      rw [valueItems_injective items items' h]
    | _ => cases h
  | .dict fields, w, h => by
    cases w with
    | dict fields' =>
      rw [PyJson.value, PyJson.value, PyValue.dict.injEq] at h
      rw [valueFields_injective fields fields' h]
    | _ => cases h

theorem valueItems_injective : ∀ vs ws : List PyJson, valueItems vs = valueItems ws → vs = ws
  | [], [], _ => rfl
  | [], _ :: _, h => by cases h
  | _ :: _, [], h => by cases h
  | v :: vs, w :: ws, h => by
    rw [valueItems, valueItems, List.cons.injEq] at h
    rw [value_injective v w h.1, valueItems_injective vs ws h.2]

theorem valueFields_injective : ∀ kvs kws : List (PyStr × PyJson),
    valueFields kvs = valueFields kws → kvs = kws
  | [], [], _ => rfl
  | [], _ :: _, h => by cases h
  | _ :: _, [], h => by cases h
  | (k, v) :: kvs, (k', w) :: kws, h => by
    rw [valueFields, valueFields, List.cons.injEq, Prod.mk.injEq] at h
    rw [h.1.1, value_injective v w h.1.2, valueFields_injective kvs kws h.2]

end

mutual

/-- What holds of a Python value holds of the JSON value that it is. -/
theorem valid_value {py : Interpreter} : ∀ w : PyJson, w.value.Valid py →
    w.FloatsRead py ∧ w.Distinct
  | .none, _ => ⟨trivial, trivial⟩
  | .bool _, _ => ⟨trivial, trivial⟩
  | .int _, _ => ⟨trivial, trivial⟩
  | .float (.finite _), h => ⟨h, trivial⟩
  | .float .nan, _ => ⟨trivial, trivial⟩
  | .float (.infinity _), _ => ⟨trivial, trivial⟩
  | .str _, _ => ⟨trivial, trivial⟩
  | .list items, h => valid_valueItems items h
  | .dict fields, ⟨hkeys, h⟩ => by
    obtain ⟨hread, hdistinct⟩ := valid_valueFields fields h
    rw [keys_valueFields] at hkeys
    exact ⟨hread, hkeys, hdistinct⟩

theorem valid_valueItems {py : Interpreter} : ∀ ws : List PyJson, ValidItems py (valueItems ws) →
    ItemsRead py ws ∧ DistinctItems ws
  | [], _ => ⟨trivial, trivial⟩
  | w :: ws, ⟨hw, hws⟩ => by
    obtain ⟨hread, hdistinct⟩ := valid_value w hw
    obtain ⟨hreads, hdistincts⟩ := valid_valueItems ws hws
    exact ⟨⟨hread, hreads⟩, hdistinct, hdistincts⟩

theorem valid_valueFields {py : Interpreter} : ∀ kws : List (PyStr × PyJson),
    ValidFields py (valueFields kws) → FieldsRead py kws ∧ DistinctFields kws
  | [], _ => ⟨trivial, trivial⟩
  | (k, w) :: kws, ⟨hw, hkws⟩ => by
    obtain ⟨hread, hdistinct⟩ := valid_value w hw
    obtain ⟨hreads, hdistincts⟩ := valid_valueFields kws hkws
    exact ⟨⟨hread, hreads⟩, hdistinct, hdistincts⟩

end

end TaskScheduler
