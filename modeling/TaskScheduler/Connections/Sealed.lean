import TaskScheduler.Connections.Store
import TaskScheduler.Crypto.KmsEnvelope
import TaskScheduler.Python.Depth
import TaskScheduler.Python.FromIsoformat

/-! The connection store once more, down to the bytes: token data goes through `json.dumps` and the
envelope into the blob of its row and back, while its `expires_at` is parsed into a column. -/

namespace TaskScheduler.Connections.Sealed

open Crypto (DecryptionError reversingEnvelope reversingEnvelope_lawful)

/-! ### The table -/

/-- The columns of `uq_oauth_connections_user_provider`. -/
def pair (r : OAuthConnection Bytes) : String × String := (r.userId, r.provider)

theorem isOf_iff {userId provider : String} {r : OAuthConnection Bytes} :
    r.isOf userId provider = true ↔ pair r = (userId, provider) := by
  simp [OAuthConnection.isOf, pair]

section Rows

variable {rows : List (OAuthConnection Bytes)} {userId provider : String} {blob blob' : Bytes}
  {expiresAt expiresAt' : Option Int}

theorem any_isOf : rows.any (OAuthConnection.isOf userId provider) = true ↔
    (userId, provider) ∈ rows.map pair := by
  simp only [List.any_eq_true, isOf_iff, List.mem_map]

theorem map_pair_replace : (rows.map fun r => if r.isOf userId provider then
    { r with encryptedBlob := blob, expiresAt := expiresAt } else r).map pair = rows.map pair := by
  rw [List.map_map]
  refine List.map_congr_left fun r _ => ?_
  show pair (if r.isOf userId provider then _ else r) = pair r
  split <;> rfl

theorem nodup_upsertRow (hunique : (rows.map pair).Nodup) (row : OAuthConnection Bytes) :
    ((upsertRow rows row).map pair).Nodup := by
  unfold upsertRow
  split
  · rw [map_pair_replace]
    exact hunique
  · next hnew =>
    rw [any_isOf] at hnew
    rw [List.map_append, List.map_singleton, List.nodup_append]
    refine ⟨hunique, List.pairwise_singleton _ _, ?_⟩
    rintro x hx y hy rfl
    obtain rfl := List.mem_singleton.mp hy
    exact hnew hx

/-- The rows of other pairs stay. -/
theorem filter_upsertRow : (upsertRow rows ⟨userId, provider, blob, expiresAt⟩).filter
    (fun r => !r.isOf userId provider) = rows.filter fun r => !r.isOf userId provider := by
  unfold upsertRow
  split
  · clear * -
    induction rows with
    | nil => rfl
    | cons r rows ih =>
      by_cases hr : r.isOf userId provider = true
      · have hnew : ({ r with encryptedBlob := blob, expiresAt := expiresAt } :
            OAuthConnection Bytes).isOf userId provider = true := hr
        rw [List.map_cons, if_pos hr, List.filter_cons_of_neg (by simp [hnew]), ih,
          List.filter_cons_of_neg (by simp [hr])]
      · rw [List.map_cons, if_neg hr, List.filter_cons_of_pos (by simp [hr]), ih,
          List.filter_cons_of_pos (by simp [hr])]
  · have hrow : (⟨userId, provider, blob, expiresAt⟩ : OAuthConnection Bytes).isOf userId provider =
        true := isOf_iff.mpr rfl
    rw [List.filter_append, List.filter_cons_of_neg (by simp [hrow]), List.filter_nil,
      List.append_nil]

/-- The second of two writes to a pair replaces the first. -/
theorem upsertRow_upsertRow :
    upsertRow (upsertRow rows ⟨userId, provider, blob, expiresAt⟩)
      ⟨userId, provider, blob', expiresAt'⟩ =
      upsertRow rows ⟨userId, provider, blob', expiresAt'⟩ := by
  by_cases hold : rows.any (OAuthConnection.isOf userId provider) = true
  · have hstill : (rows.map fun r => if r.isOf userId provider then
        { r with encryptedBlob := blob, expiresAt := expiresAt } else r).any
        (OAuthConnection.isOf userId provider) = true := by
      rw [any_isOf, map_pair_replace]
      exact any_isOf.mp hold
    simp only [upsertRow, hold, if_true, hstill, List.map_map]
    refine List.map_congr_left fun r _ => ?_
    by_cases hr : r.isOf userId provider = true
    · have hnew : ({ r with encryptedBlob := blob, expiresAt := expiresAt } :
          OAuthConnection Bytes).isOf userId provider = true := hr
      simp only [Function.comp, hr, hnew, if_true]
    · simp only [Function.comp, hr, if_false, Bool.false_eq_true]
  · have hkeep : ∀ r ∈ rows, r.isOf userId provider = false := by
      intro r hr
      rw [List.any_eq_true] at hold
      exact Bool.eq_false_iff.mpr fun h => hold ⟨r, hr, h⟩
    have hrow : (⟨userId, provider, blob, expiresAt⟩ : OAuthConnection Bytes).isOf userId provider =
        true := isOf_iff.mpr rfl
    have hsame : (rows.map fun r => if r.isOf userId provider then
        { r with encryptedBlob := blob', expiresAt := expiresAt' } else r) = rows := by
      refine (List.map_congr_left fun r hr => ?_).trans rows.map_id
      rw [hkeep r hr]
      rfl
    simp only [upsertRow, hold, Bool.false_eq_true, if_false, List.any_append, List.any_cons, hrow,
      Bool.true_or, Bool.or_true, if_true, List.map_append, List.map_cons, List.map_nil, hsame]

end Rows

/-- The table `oauth_connections`. -/
structure OAuthConnections where
  rows : List (OAuthConnection Bytes)
  unique : (rows.map pair).Nodup

namespace OAuthConnections

/-- The statement of `upsert`. -/
def upsert (table : OAuthConnections) (row : OAuthConnection Bytes) : OAuthConnections where
  rows := upsertRow table.rows row
  unique := nodup_upsertRow table.unique row

/-- The statement of `delete`. -/
def delete (table : OAuthConnections) (userId provider : String) : OAuthConnections where
  rows := table.rows.filter fun r => !r.isOf userId provider
  unique := table.unique.sublist (List.filter_sublist.map pair)

/-- The rows of other users and providers. -/
def others (table : OAuthConnections) (userId provider : String) : List (OAuthConnection Bytes) :=
  (table.delete userId provider).rows

end OAuthConnections

/-! ### The store -/

/-- The exceptions that leave the store. -/
inductive Raised
  | connectionMiss
  | python (e : PyException)
  | encryption (exc : String)
  | decryption (err : DecryptionError)
  | refresher (exc : String)
  | database

/-- A dict of Python. -/
abbrev TokenData (py : Interpreter) :=
  { fields : List (PyStr × PyValue) // (PyValue.dict fields).Valid py }

def TokenData.get? {py : Interpreter} (tokenData : TokenData py) (key : String) : Option PyValue :=
  tokenData.val.lookup (PyStr.ofString key)

/-- `json.dumps(token_data).encode()`. -/
def payload {py : Interpreter} (tokenData : TokenData py) : Except PyException Bytes :=
  ((PyValue.dict tokenData.val).toJson py.encodeDepth).map fun v => asciiBytes v.dumps

/-- `_parse_expires_at`. -/
def parseExpiresAt : Option PyValue → Except PyException (Option Datetime)
  | none | some .none => .ok none
  | some (.datetime dt) => .ok (some dt.orUtc)
  | some (.str s) =>
    match fromisoformat s with
    | some dt => .ok (some dt.orUtc)
    | none => .error .valueError
  | some _ => .ok none

/-- The parameter of the statement: the driver takes a datetime to UTC, where it may overflow. -/
def timestamptz : Option Datetime → Except Raised (Option Int)
  | none => .ok none
  | some dt => if (Wall.ofMicros dt.instant).isSome then .ok (some dt.instant) else .error .database

section Store

variable (envelope : Crypto.KmsEnvelope)

/-- `ConnectionStore.upsert`. -/
def upsert (draw : Nat) (userId provider : String) (tokenData : TokenData envelope.py)
    (table : OAuthConnections) : Except Raised OAuthConnections := do
  let plaintext ← (payload tokenData).mapError .python
  let blob ← (envelope.encrypt draw plaintext).mapError .encryption
  let expiresAt ← (parseExpiresAt (tokenData.get? "expires_at")).mapError .python
  let expiresAt ← timestamptz expiresAt
  return table.upsert ⟨userId, provider, blob, expiresAt⟩

/-- `json.loads(self._envelope.decrypt(row.encrypted_blob))`. -/
def openBlob (blob : Bytes) : Except Raised PyJson :=
  match envelope.decrypt blob with
  | .returned plaintext => (loads envelope.py plaintext).mapError .python
  | .decryptionError err => .error (.decryption err)
  | .raised e => .error (.python e)

/-- A refresher returns a dict, unless it raises. -/
abbrev TokenRefresher := PyJson → Except String (TokenData envelope.py)

/-- `token_data["access_token"]`, for data that was refreshed. -/
def accessToken {py : Interpreter} (tokenData : TokenData py) : Except Raised PyValue :=
  match tokenData.get? "access_token" with
  | some token => .ok token
  | none => .error (.python .keyError)

/-- The refresh of `get_fresh_token`. -/
def refreshToken (refresher : TokenRefresher envelope) (draw : Nat) (userId provider : String)
    (tokenData : PyJson) (table : OAuthConnections) : Except Raised PyValue × OAuthConnections :=
  match refresher tokenData with
  | .error exc => (.error (.refresher exc), table)
  | .ok tokenData =>
    match upsert envelope draw userId provider tokenData table with
    | .error e => (.error e, table)
    | .ok table => (accessToken tokenData, table)

/-- `token_data["access_token"]`, for data that was stored. -/
def storedToken (tokenData : PyJson) : Except Raised PyValue :=
  ((tokenData.item "access_token").mapError .python).map PyJson.value

/-- `ConnectionStore.get_fresh_token`. -/
def getFreshToken (refresher : Option (TokenRefresher envelope)) (window now : Int) (draw : Nat)
    (userId provider : String) (table : OAuthConnections) :
    Except Raised PyValue × OAuthConnections :=
  match loadRow table.rows userId provider with
  | none => (.error .connectionMiss, table)
  | some row =>
    match openBlob envelope row.encryptedBlob with
    | .error e => (.error e, table)
    | .ok tokenData =>
      match refresher with
      | none => (storedToken tokenData, table)
      | some refresher =>
        if needsRefresh row.expiresAt window now then
          refreshToken envelope refresher draw userId provider tokenData table
        else (storedToken tokenData, table)

end Store

/-! ### The contract -/

/-- The instant that an `expires_at` gives, if it gives one; a naive datetime is one of UTC. -/
inductive Gives : Option PyValue → Option Int → Prop
  | absent : Gives none none
  | null : Gives (some .none) none
  | datetime (dt : Datetime) : Gives (some (.datetime dt)) (some dt.instant)
  | text {s : PyStr} {dt : Datetime} (h : fromisoformat s = some dt) :
    Gives (some (.str s)) (some dt.instant)

/-- What `upsert` says that it takes: there is an access token, and an `expires_at` is a string or a
datetime. -/
structure Admitted {py : Interpreter} (tokenData : TokenData py) (token : PyValue) : Prop where
  access_token : tokenData.get? "access_token" = some token
  expires_at :
    match tokenData.get? "expires_at" with
    | none | some .none | some (.datetime _) | some (.str _) => True
    | some _ => False

/-- What a write of the token data leaves. -/
structure Stored (envelope : Crypto.KmsEnvelope) (draw : Nat) (userId provider : String)
    (tokenData : TokenData envelope.py) (token : PyValue) (before after : OAuthConnections) :
    Prop where
  access_token : ∀ refresher window now draw',
    (refresher = none ∨ ∀ row, loadRow after.rows userId provider = some row →
      needsRefresh row.expiresAt window now = false) →
    getFreshToken envelope refresher window now draw' userId provider after = (.ok token, after)
  expires_at : ∃ row, loadRow after.rows userId provider = some row ∧
    Gives (tokenData.get? "expires_at") row.expiresAt
  others : after.others userId provider = before.others userId provider
  replaces : ∀ draw₀ tokenData₀ between,
    upsert envelope draw₀ userId provider tokenData₀ before = .ok between →
      upsert envelope draw userId provider tokenData between = .ok after

/-- Whatever the table holds, the write succeeds, and the token comes back. -/
def RoundTrips (envelope : Crypto.KmsEnvelope) (draw : Nat) (userId provider : String)
    (tokenData : TokenData envelope.py) (token : PyValue) : Prop :=
  ∀ before, ∃ after, upsert envelope draw userId provider tokenData before = .ok after ∧
    Stored envelope draw userId provider tokenData token before after

/-- What comes back: values that JSON has, not nested too deeply, a token that is whole, and an
`expires_at` that is read as an instant of the years that UTC has. -/
structure Storable {py : Interpreter} (tokenData : TokenData py) (token : PyValue) : Prop where
  json : ∃ fields, tokenData.val = valueFields fields ∧
    (PyJson.dict fields).depth ≤ min py.encodeDepth py.decodeDepth
  whole : ∀ w : PyJson, token = w.value → w.whole = true
  read : ∀ s, tokenData.get? "expires_at" = some (.str s) →
    ∃ dt, fromisoformat s = some dt ∧ (Wall.ofMicros dt.instant).isSome = true

/-! ### The blob and the column -/

theorem payload_ok {py : Interpreter} {tokenData : TokenData py} {plaintext : Bytes} :
    payload tokenData = .ok plaintext ↔ ∃ fields, tokenData.val = valueFields fields ∧
      (PyJson.dict fields).depth ≤ py.encodeDepth ∧
        asciiBytes (PyJson.dict fields).dumps = plaintext := by
  rw [payload, ok_map]
  constructor
  · rintro ⟨w, hw, hplaintext⟩
    obtain ⟨hvalue, hdepth⟩ := value_of_toJson _ _ _ hw
    cases w with
    | dict fields =>
      rw [PyJson.value, PyValue.dict.injEq] at hvalue
      exact ⟨fields, hvalue.symm, hdepth, hplaintext⟩
    | _ => cases hvalue
  · rintro ⟨fields, hfields, hdepth, hplaintext⟩
    refine ⟨.dict fields, ?_, hplaintext⟩
    rw [hfields]
    exact toJson_value (.dict fields) _ hdepth

theorem timestamptz_ok {dt : Datetime} {t : Option Int} : timestamptz (some dt) = .ok t ↔
    (Wall.ofMicros dt.instant).isSome = true ∧ t = some dt.instant := by
  rw [timestamptz]
  split_ifs with h
  · exact ⟨fun heq => ⟨h, (Except.ok.inj heq).symm⟩, fun ⟨_, heq⟩ => heq ▸ rfl⟩
  · exact ⟨nofun, fun ⟨hsome, _⟩ => absurd hsome h⟩

/-- An `expires_at` is stored exactly as the instant that it gives, where UTC has that. -/
theorem column_ok {py : Interpreter} {tokenData : TokenData py} {token : PyValue}
    (hadmitted : Admitted tokenData token) {expiresAt : Option Int} :
    (∃ dt, parseExpiresAt (tokenData.get? "expires_at") = .ok dt ∧
      timestamptz dt = .ok expiresAt) ↔
    Gives (tokenData.get? "expires_at") expiresAt ∧
      ∀ t, expiresAt = some t → (Wall.ofMicros t).isSome = true := by
  have hexpires := hadmitted.expires_at
  cases hvalue : tokenData.get? "expires_at" with
  | none =>
    constructor
    · rintro ⟨dt, hdt, ht⟩
      cases hdt
      cases ht
      exact ⟨.absent, nofun⟩
    · rintro ⟨hgives, -⟩
      cases hgives
      exact ⟨none, rfl, rfl⟩
  | some v =>
    rw [hvalue] at hexpires
    cases v with
    | none =>
      constructor
      · rintro ⟨dt, hdt, ht⟩
        cases hdt
        cases ht
        exact ⟨.null, nofun⟩
      · rintro ⟨hgives, -⟩
        cases hgives
        exact ⟨none, rfl, rfl⟩
    | datetime dt =>
      constructor
      · rintro ⟨dt', hdt, ht⟩
        cases hdt
        obtain ⟨hsome, rfl⟩ := timestamptz_ok.mp ht
        rw [Datetime.instant_orUtc] at hsome ⊢
        exact ⟨.datetime dt, fun t ht => Option.some.inj ht ▸ hsome⟩
      · rintro ⟨hgives, hsome⟩
        cases hgives
        refine ⟨_, rfl, timestamptz_ok.mpr ?_⟩
        rw [Datetime.instant_orUtc]
        exact ⟨hsome _ rfl, rfl⟩
    | str s =>
      constructor
      · rintro ⟨dt', hdt, ht⟩
        rw [parseExpiresAt] at hdt
        split at hdt
        · next dt hread =>
          cases hdt
          obtain ⟨hsome, rfl⟩ := timestamptz_ok.mp ht
          rw [Datetime.instant_orUtc] at hsome ⊢
          exact ⟨.text hread, fun t ht => Option.some.inj ht ▸ hsome⟩
        · cases hdt
      · rintro ⟨hgives, hsome⟩
        cases hgives with
        | @text _ dt hread =>
          refine ⟨dt.orUtc, ?_, timestamptz_ok.mpr ?_⟩
          · rw [parseExpiresAt, hread]
          · rw [Datetime.instant_orUtc]
            exact ⟨hsome _ rfl, rfl⟩
    | bool b | int n | float x | list items | dict fields => exact hexpires.elim

section Store

variable {envelope : Crypto.KmsEnvelope} {draw : Nat} {userId provider : String}
  {tokenData : TokenData envelope.py} {token : PyValue} {before after : OAuthConnections}

/-- What a write does that succeeds. -/
theorem upsert_ok : upsert envelope draw userId provider tokenData before = .ok after ↔
    ∃ plaintext blob dt expiresAt, payload tokenData = .ok plaintext ∧
      envelope.encrypt draw plaintext = .ok blob ∧
      parseExpiresAt (tokenData.get? "expires_at") = .ok dt ∧ timestamptz dt = .ok expiresAt ∧
        after = before.upsert ⟨userId, provider, blob, expiresAt⟩ := by
  simp only [upsert, ok_bind, ok_mapError]
  constructor
  · rintro ⟨plaintext, hpayload, blob, hblob, dt, hdt, expiresAt, hexpires, hafter⟩
    exact ⟨plaintext, blob, dt, expiresAt, hpayload, hblob, hdt, hexpires,
      (Except.ok.inj hafter).symm⟩
  · rintro ⟨plaintext, blob, dt, expiresAt, hpayload, hblob, hdt, hexpires, rfl⟩
    exact ⟨plaintext, hpayload, blob, hblob, dt, hdt, expiresAt, hexpires, rfl⟩

/-- What `get_fresh_token` returns where no refresh is due. -/
theorem getFreshToken_stored {table : OAuthConnections} {row : OAuthConnection Bytes}
    (hrow : loadRow table.rows userId provider = some row)
    {refresher : Option (TokenRefresher envelope)} {window now : Int} (draw : Nat)
    (houtside : refresher = none ∨ needsRefresh row.expiresAt window now = false) :
    getFreshToken envelope refresher window now draw userId provider table =
      (openBlob envelope row.encryptedBlob >>= storedToken, table) := by
  rw [getFreshToken, hrow]
  dsimp only
  cases openBlob envelope row.encryptedBlob with
  | error e => rfl
  | ok v =>
    cases refresher with
    | none => rfl
    | some refresher =>
      have hlate := houtside.resolve_left nofun
      simp only [hlate, Bool.false_eq_true, if_false]
      rfl

theorem distinct_lookup {fields : List (PyStr × PyJson)} {key : PyStr} {w : PyJson}
    (h : DistinctFields fields) (hw : fields.lookup key = some w) : w.Distinct := by
  induction fields with
  | nil => cases hw
  | cons kv fields ih =>
    obtain ⟨k, v⟩ := kv
    rw [List.lookup_cons] at hw
    cases hkey : key == k with
    | true =>
      rw [hkey, Option.some.injEq] at hw
      exact hw ▸ h.1
    | false =>
      rw [hkey] at hw
      exact ih h.2 hw

theorem get?_valueFields {fields : List (PyStr × PyJson)} {key : String} {v : PyValue}
    (hfields : tokenData.val = valueFields fields) (hv : tokenData.get? key = some v) :
    ∃ w, fields.lookup (PyStr.ofString key) = some w ∧ w.value = v := by
  rw [TokenData.get?, hfields, lookup_valueFields, Option.map_eq_some_iff] at hv
  exact hv

/-- The token comes out of the blob exactly where the data is not nested too deeply and the token is
whole. -/
theorem openBlob_token (hlawful : envelope.Lawful) {fields : List (PyStr × PyJson)} {blob : Bytes}
    (hfields : tokenData.val = valueFields fields)
    (hblob : envelope.encrypt draw (asciiBytes (PyJson.dict fields).dumps) = .ok blob)
    (htoken : tokenData.get? "access_token" = some token) :
    openBlob envelope blob >>= storedToken = .ok token ↔
    (PyJson.dict fields).depth ≤ envelope.py.decodeDepth ∧
      ∀ w : PyJson, token = w.value → w.whole = true := by
  obtain ⟨w, hw, rfl⟩ := get?_valueFields hfields htoken
  have hvalid := tokenData.property
  rw [hfields] at hvalid
  obtain ⟨hread, hkeys, hdistinct⟩ := valid_value (.dict fields) hvalid
  have hopen : openBlob envelope blob =
      (loads envelope.py (asciiBytes (PyJson.dict fields).dumps)).mapError .python := by
    rw [openBlob, Crypto.KmsEnvelope.decrypt_encrypt hlawful hblob]
  have hwhole : (∀ w' : PyJson, w.value = w'.value → w'.whole = true) ↔ w.whole = true :=
    ⟨fun h => h w rfl, fun h w' heq => value_injective w w' heq ▸ h⟩
  rw [hopen, hwhole]
  by_cases hdepth : (PyJson.dict fields).depth ≤ envelope.py.decodeDepth
  · have hitem : (PyJson.dict fields).reload.item "access_token" = .ok w.reload :=
      PyJson.item_reload hkeys rfl hw
    have hstored : storedToken (PyJson.dict fields).reload = .ok w.reload.value := by
      rw [storedToken, hitem]
      rfl
    rw [loads_dumps envelope.py _ hread hdepth]
    show storedToken (PyJson.dict fields).reload = _ ↔ _
    rw [hstored, Except.ok.injEq, ← reload_eq_iff w (distinct_lookup hdistinct hw)]
    exact ⟨fun h => ⟨hdepth, value_injective _ _ h⟩, fun ⟨_, h⟩ => congrArg PyJson.value h⟩
  · rw [loads_dumps_deep envelope.py _ hread (Nat.lt_of_not_le hdepth)]
    exact ⟨nofun, fun ⟨h, _⟩ => absurd h hdepth⟩

/-- Of what is encoded, an `expires_at` gives an instant that UTC has. -/
theorem Storable.gives (hadmitted : Admitted tokenData token) (h : Storable tokenData token) :
    ∃ expiresAt, Gives (tokenData.get? "expires_at") expiresAt ∧
      ∀ t, expiresAt = some t → (Wall.ofMicros t).isSome = true := by
  obtain ⟨fields, hfields, -⟩ := h.json
  have hexpires := hadmitted.expires_at
  cases hvalue : tokenData.get? "expires_at" with
  | none => exact ⟨none, .absent, nofun⟩
  | some v =>
    rw [hvalue] at hexpires
    obtain ⟨w, -, rfl⟩ := get?_valueFields hfields hvalue
    cases w with
    | none => exact ⟨none, .null, nofun⟩
    | str s =>
      obtain ⟨dt, hread, hsome⟩ := h.read s hvalue
      exact ⟨some dt.instant, .text hread, fun t ht => Option.some.inj ht ▸ hsome⟩
    | bool b | int n | float x | list items | dict fields => exact hexpires.elim

/-- The round trip of admitted token data goes through exactly where the data is storable. -/
theorem roundTrips_iff (hlawful : envelope.Lawful) (hadmitted : Admitted tokenData token)
    (hseals : ∀ plaintext, payload tokenData = .ok plaintext →
      ∃ blob, envelope.encrypt draw plaintext = .ok blob) :
    RoundTrips envelope draw userId provider tokenData token ↔ Storable tokenData token := by
  constructor
  · intro h
    obtain ⟨after, hupsert, hstored⟩ := h ⟨[], List.nodup_nil⟩
    obtain ⟨plaintext, blob, dt, expiresAt, hpayload, hblob, hdt, hcolumn, rfl⟩ :=
      upsert_ok.mp hupsert
    obtain ⟨fields, hfields, hdepth, rfl⟩ := payload_ok.mp hpayload
    obtain ⟨hgives, hsome⟩ := (column_ok hadmitted).mp ⟨dt, hdt, hcolumn⟩
    obtain ⟨row, hrow, hsealed, -⟩ := loadRow_upsertRow ([] : List (OAuthConnection Bytes))
      ⟨userId, provider, blob, expiresAt⟩
    have htoken := hstored.access_token none 0 0 0 (.inl rfl)
    rw [getFreshToken_stored hrow 0 (.inl rfl), hsealed, Prod.mk.injEq,
      openBlob_token hlawful hfields hblob hadmitted.access_token] at htoken
    obtain ⟨⟨hdecode, hwhole⟩, -⟩ := htoken
    refine ⟨⟨fields, hfields, Nat.le_min.mpr ⟨hdepth, hdecode⟩⟩, hwhole, fun s hs => ?_⟩
    rw [hs] at hgives
    cases hgives with
    | @text _ dt hread => exact ⟨dt, hread, hsome _ rfl⟩
  · intro h before
    obtain ⟨fields, hfields, hdepth⟩ := h.json
    obtain ⟨hencode, hdecode⟩ := Nat.le_min.mp hdepth
    have hpayload := payload_ok.mpr ⟨fields, hfields, hencode, rfl⟩
    obtain ⟨blob, hblob⟩ := hseals _ hpayload
    obtain ⟨expiresAt, hgives⟩ := h.gives hadmitted
    obtain ⟨dt, hdt, hcolumn⟩ := (column_ok hadmitted).mpr hgives
    have hwrites : ∀ table, upsert envelope draw userId provider tokenData table =
        .ok (table.upsert ⟨userId, provider, blob, expiresAt⟩) := fun table =>
      upsert_ok.mpr ⟨_, blob, dt, expiresAt, hpayload, hblob, hdt, hcolumn, rfl⟩
    obtain ⟨row, hrow, hsealed, hexpires⟩ := loadRow_upsertRow before.rows
      ⟨userId, provider, blob, expiresAt⟩
    refine ⟨_, hwrites before, ?_, ⟨row, hrow, hexpires ▸ hgives.1⟩, filter_upsertRow, ?_⟩
    · intro refresher window now draw' houtside
      rw [getFreshToken_stored hrow draw' (houtside.imp_right fun h => h row hrow), hsealed,
        (openBlob_token hlawful hfields hblob hadmitted.access_token).mpr ⟨hdecode, h.whole⟩]
    · intro draw₀ tokenData₀ between hbetween
      obtain ⟨-, blob₀, -, expiresAt₀, -, -, -, -, rfl⟩ := upsert_ok.mp hbetween
      rw [hwrites]
      simp only [OAuthConnections.upsert, upsertRow_upsertRow]

end Store

/-- An ISO text gives the instant that it was written from. -/
theorem gives_isoformat {dt : Datetime}
    (hwhole : ∀ offset, dt.utcoffset = some offset → WholeOffset offset.val) {t : Option Int} :
    Gives (some (.str (dt.isoformat.map codePoint))) t ↔ t = some dt.instant := by
  have hread := fromisoformat_isoformat dt hwhole
  constructor
  · intro h
    cases h with
    | text h => rw [hread] at h; rw [Option.some.inj h]
  · rintro rfl
    exact .text hread

/-! ### Two dicts -/

/-- Midnight of 1 January 1970 in UTC. -/
def epoch : Datetime := ⟨⟨0, by decide, by decide⟩, some utcOffset⟩

/-- The token `t`, which expires at the epoch. -/
def expiring (expiresAt : PyValue) (hvalid : expiresAt.Valid plainInterpreter) :
    TokenData reversingEnvelope.py :=
  ⟨[(PyStr.ofString "access_token", .str (PyStr.ofString "t")),
    (PyStr.ofString "expires_at", expiresAt)], by
    have hkeys : ([PyStr.ofString "access_token", PyStr.ofString "expires_at"] :
        List PyStr).Nodup := by
      decide
    exact ⟨hkeys, trivial, hvalid, trivial⟩⟩

/-- With a text for `expires_at` the round trip goes through. -/
theorem isoformat_roundTrips : RoundTrips reversingEnvelope 5 "alice" "google"
    (expiring (.str (epoch.isoformat.map codePoint)) trivial) (.str (PyStr.ofString "t")) := by
  have hread : fromisoformat (epoch.isoformat.map codePoint) = some epoch := by
    refine fromisoformat_isoformat epoch fun offset h => ?_
    obtain rfl := Option.some.inj h
    exact .inl rfl
  refine (roundTrips_iff reversingEnvelope_lawful ⟨rfl, trivial⟩ fun plaintext _ => ⟨_, rfl⟩).mpr
    ⟨⟨[(PyStr.ofString "access_token", .str (PyStr.ofString "t")),
      (PyStr.ofString "expires_at", .str (epoch.isoformat.map codePoint))], rfl, by decide⟩, ?_, ?_⟩
  · intro w hw
    rw [← value_injective (.str (PyStr.ofString "t")) w hw]
    rfl
  · intro s hs
    cases hs
    exact ⟨epoch, hread, rfl⟩

/-- With a datetime for `expires_at` no write succeeds. -/
theorem datetime_not_roundTrips : reversingEnvelope.Lawful ∧
    Admitted (expiring (.datetime epoch) trivial) (.str (PyStr.ofString "t")) ∧
    (∀ before, upsert reversingEnvelope 5 "alice" "google" (expiring (.datetime epoch) trivial)
      before = .error (.python .typeError)) ∧
    ¬∀ draw userId provider tokenData token, Admitted tokenData token →
      RoundTrips reversingEnvelope draw userId provider tokenData token := by
  have hadmitted : Admitted (expiring (.datetime epoch) trivial) (.str (PyStr.ofString "t")) :=
    ⟨rfl, trivial⟩
  have hraises : ∀ before, upsert reversingEnvelope 5 "alice" "google"
      (expiring (.datetime epoch) trivial) before = .error (.python .typeError) := fun _ => rfl
  refine ⟨reversingEnvelope_lawful, hadmitted, hraises, fun h => ?_⟩
  obtain ⟨after, hafter, -⟩ := h 5 "alice" "google" _ _ hadmitted ⟨[], List.nodup_nil⟩
  rw [hraises] at hafter
  cases hafter

end TaskScheduler.Connections.Sealed
