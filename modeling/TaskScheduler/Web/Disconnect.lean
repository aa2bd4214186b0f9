import TaskScheduler.Connections.Sealed
import TaskScheduler.Web.Connections

/-! The disconnect routes of `app/web/connections.py`.  The row goes only after its token has been
read from the blob, for the sake of the provider, and of all that may fail on the way only a missing
row is caught. -/

namespace TaskScheduler.Web

open Connections (loadRow)
open Connections.Sealed

/-- The settings that the disconnect routes read, and what the requests end with by which a provider
is asked to revoke a token. -/
structure DisconnectConfig where
  envelope : Option Crypto.KmsEnvelope
  githubClientId : Option String
  githubClientSecret : Option String
  revoke : Provider → PyValue → Except String Unit

/-- `settings.github_client_id and settings.github_client_secret`. -/
def DisconnectConfig.githubCredentials (cfg : DisconnectConfig) : Bool :=
  (truthy cfg.githubClientId).isSome && (truthy cfg.githubClientSecret).isSome

/-- `except Exception: pass`. -/
def bestEffort : Except String Unit → Except Raised Unit
  | .ok () => .ok ()
  | .error _ => .ok ()

/-- `_revoke_github_token`. -/
def revokeGithubToken (cfg : DisconnectConfig) (token : PyValue) : Except Raised Unit :=
  if !cfg.githubCredentials then .ok () else bestEffort (cfg.revoke .github token)

/-- `_revoke_slack_token`. -/
def revokeSlackToken (cfg : DisconnectConfig) (token : PyValue) : Except Raised Unit :=
  bestEffort (cfg.revoke .slack token)

/-- `_revoke_google_token`. -/
def revokeGoogleToken (cfg : DisconnectConfig) (token : PyValue) : Except Raised Unit :=
  bestEffort (cfg.revoke .google token)

/-- `refresh_window_seconds`, in microseconds. -/
def refreshWindow : Int := 300 * 1000000

/-- The session of the disconnect routes, up to the commit.  Without a refresher `get_fresh_token`
neither reads the clock nor draws anything. -/
def disconnectSession (envelope : Crypto.KmsEnvelope) (provider : Provider)
    (revoke : PyValue → Except Raised Unit) (userId : String) (table : OAuthConnections) :
    Except Raised OAuthConnections :=
  let (token, table) := getFreshToken envelope none refreshWindow 0 0 userId provider.slug table
  match token >>= revoke with
  | .ok () | .error .connectionMiss => .ok (table.delete userId provider.slug)
  | .error e => .error e

/-- The disconnect routes: the response, and what is committed. -/
def disconnect (provider : Provider) (revoke : PyValue → Except Raised Unit)
    (cfg : DisconnectConfig) (userId : Option String) (table : OAuthConnections) :
    Response × OAuthConnections :=
  match truthy userId with
  | none => ({ page := .redirect "/connections/login" }, table)
  | some userId =>
    match cfg.envelope with
    | none => ({ page := .redirect "/connections" }, table)
    | some envelope =>
      match disconnectSession envelope provider revoke userId table with
      | .ok table => ({ page := .redirect "/connections" }, table)
      | .error _ => ({ page := .serverError }, table)

/-- `_github_disconnect`, which looks at the credentials once more. -/
def githubDisconnect (cfg : DisconnectConfig) (userId : Option String) (table : OAuthConnections) :
    Response × OAuthConnections :=
  disconnect .github
    (fun token => if cfg.githubCredentials then revokeGithubToken cfg token else .ok ())
    cfg userId table

/-- `_slack_disconnect`. -/
def slackDisconnect (cfg : DisconnectConfig) (userId : Option String) (table : OAuthConnections) :
    Response × OAuthConnections :=
  disconnect .slack (revokeSlackToken cfg) cfg userId table

/-- `_google_disconnect`. -/
def googleDisconnect (cfg : DisconnectConfig) (userId : Option String) (table : OAuthConnections) :
    Response × OAuthConnections :=
  disconnect .google (revokeGoogleToken cfg) cfg userId table

def disconnectRoute (p : Provider) (cfg : DisconnectConfig) (userId : Option String)
    (table : OAuthConnections) : Response × OAuthConnections :=
  match p with
  | .github => githubDisconnect cfg userId table
  | .slack => slackDisconnect cfg userId table
  | .google => googleDisconnect cfg userId table

/-! ### What is removed -/

/-- No row of the pair is left, and all other rows are. -/
def Removed (userId provider : String) (before after : OAuthConnections) : Prop :=
  (∀ r ∈ after.rows, r.isOf userId provider = false) ∧
    after.others userId provider = before.others userId provider

/-- The blob of the pair, if any, decrypts to the JSON of an object with an access token. -/
def Opens (envelope : Crypto.KmsEnvelope) (userId provider : String) (table : OAuthConnections) :
    Prop :=
  ∀ row, loadRow table.rows userId provider = some row → ∃ plaintext fields token,
    envelope.decrypt row.encryptedBlob = .returned plaintext ∧
      loads envelope.py plaintext = .ok (.dict fields) ∧
        fields.lookup (PyStr.ofString "access_token") = some token

theorem removed_delete (userId provider : String) (table : OAuthConnections) :
    Removed userId provider table (table.delete userId provider) := by
  constructor
  · intro r hr
    simpa using (List.mem_filter.mp hr).2
  · simp [OAuthConnections.others, OAuthConnections.delete, List.filter_filter]

section Routes

variable {envelope : Crypto.KmsEnvelope} {userId : String} {table : OAuthConnections}

/-- A token is read from a blob that decrypts to the JSON of an object with an access token. -/
theorem storedToken_ok {blob : Bytes} {token : PyValue} :
    openBlob envelope blob >>= storedToken = .ok token ↔ ∃ plaintext fields w,
      envelope.decrypt blob = .returned plaintext ∧
        loads envelope.py plaintext = .ok (.dict fields) ∧
          fields.lookup (PyStr.ofString "access_token") = some w ∧ w.value = token := by
  rw [ok_bind]
  constructor
  · rintro ⟨v, hopen, hv⟩
    rw [storedToken, ok_map] at hv
    obtain ⟨w, hw, hvalue⟩ := hv
    obtain ⟨fields, rfl, hlookup⟩ := PyJson.item_ok.mp (ok_mapError.mp hw)
    unfold openBlob at hopen
    split at hopen
    · next plaintext hplaintext =>
      exact ⟨plaintext, fields, w, hplaintext, ok_mapError.mp hopen, hlookup, hvalue⟩
    · cases hopen
    · cases hopen
  · rintro ⟨plaintext, fields, w, hplaintext, hloads, hlookup, hvalue⟩
    refine ⟨.dict fields, ?_, ?_⟩
    · rw [openBlob, hplaintext]
      exact ok_mapError.mpr hloads
    · rw [storedToken, ok_map]
      exact ⟨w, ok_mapError.mpr (PyJson.item_dict_some hlookup), hvalue⟩

/-- What a blob raises is never that the row is missing. -/
theorem storedToken_ne_miss (blob : Bytes) :
    openBlob envelope blob >>= storedToken ≠ .error .connectionMiss := by
  cases hopen : openBlob envelope blob with
  | error e =>
    rintro ⟨⟩
    unfold openBlob at hopen
    split at hopen
    · next plaintext _ =>
      cases hloads : loads envelope.py plaintext with
      | error e => rw [hloads] at hopen; cases hopen
      | ok v => rw [hloads] at hopen; cases hopen
    · cases hopen
    · cases hopen
  | ok v =>
    show storedToken v ≠ _
    unfold storedToken
    cases v.item "access_token" with
    | error e => exact nofun
    | ok w => exact nofun

/-- The session ends with the deletion exactly where the blob opens, if revoking raises nothing. -/
theorem disconnectSession_ok {provider : Provider} {revoke : PyValue → Except Raised Unit}
    (hrevoke : ∀ token, revoke token = .ok ()) {after : OAuthConnections} :
    disconnectSession envelope provider revoke userId table = .ok after ↔
      Opens envelope userId provider.slug table ∧ after = table.delete userId provider.slug := by
  cases hrow : loadRow table.rows userId provider.slug with
  | none =>
    have hopens : Opens envelope userId provider.slug table := fun row h => by
      rw [hrow] at h
      cases h
    have hsession : disconnectSession envelope provider revoke userId table =
        .ok (table.delete userId provider.slug) := by
      simp only [disconnectSession, getFreshToken, hrow]
      rfl
    rw [hsession, Except.ok.injEq]
    exact ⟨fun h => ⟨hopens, h.symm⟩, fun h => h.2.symm⟩
  | some row =>
    have hopens : Opens envelope userId provider.slug table ↔
        ∃ token, openBlob envelope row.encryptedBlob >>= storedToken = .ok token := by
      constructor
      · intro h
        obtain ⟨plaintext, fields, w, hplaintext, hloads, hlookup⟩ := h row hrow
        exact ⟨w.value, storedToken_ok.mpr ⟨plaintext, fields, w, hplaintext, hloads, hlookup, rfl⟩⟩
      · rintro ⟨token, htoken⟩ row' hrow'
        obtain rfl := Option.some.inj (hrow.symm.trans hrow')
        obtain ⟨plaintext, fields, w, hplaintext, hloads, hlookup, -⟩ := storedToken_ok.mp htoken
        exact ⟨plaintext, fields, w, hplaintext, hloads, hlookup⟩
    rw [hopens]
    unfold disconnectSession
    rw [getFreshToken_stored hrow 0 (.inl rfl)]
    dsimp only
    cases htoken : openBlob envelope row.encryptedBlob >>= storedToken with
    | ok token =>
      rw [show Except.ok token >>= revoke = .ok () from hrevoke token]
      exact ⟨fun h => ⟨⟨token, rfl⟩, (Except.ok.inj h).symm⟩, fun h => h.2 ▸ rfl⟩
    | error e =>
      have hmiss : e ≠ .connectionMiss := fun h => storedToken_ne_miss _ (h ▸ htoken)
      constructor
      · intro h
        cases e with
        | connectionMiss => exact absurd rfl hmiss
        | _ => cases h
      · rintro ⟨⟨token, h⟩, -⟩
        cases h

/-- Whatever a provider does, nothing is raised in revoking. -/
theorem bestEffort_ok (reply : Except String Unit) : bestEffort reply = .ok () := by
  cases reply <;> rfl

theorem revokeGithubToken_ok (cfg : DisconnectConfig) (token : PyValue) :
    revokeGithubToken cfg token = .ok () := by
  unfold revokeGithubToken
  split
  · rfl
  · exact bestEffort_ok _

/-- What a disconnect leaves of the table. -/
theorem disconnect_table (provider : Provider) {revoke : PyValue → Except Raised Unit}
    (hrevoke : ∀ token, revoke token = .ok ()) {cfg : DisconnectConfig} {cookie : Option String}
    (hcookie : truthy cookie = some userId) (hkms : cfg.envelope = some envelope) :
    Removed userId provider.slug table (disconnect provider revoke cfg cookie table).2 ↔
      Opens envelope userId provider.slug table := by
  unfold disconnect
  rw [hcookie, hkms]
  dsimp only
  cases hsession : disconnectSession envelope provider revoke userId table with
  | ok after =>
    obtain ⟨hopens, rfl⟩ := (disconnectSession_ok hrevoke).mp hsession
    exact iff_of_true (removed_delete _ _ _) hopens
  | error e =>
    have hclosed : ¬Opens envelope userId provider.slug table := fun hopens => by
      rw [(disconnectSession_ok hrevoke).mpr ⟨hopens, rfl⟩] at hsession
      cases hsession
    refine iff_of_false (fun hremoved => hclosed fun row hrow => ?_) hclosed
    have hkey := hremoved.1 row (List.mem_of_find?_eq_some hrow)
    rw [List.find?_some hrow] at hkey
    cases hkey

/-- A disconnect removes what is stored exactly where it opens, whatever the provider does. -/
theorem disconnect_removes_iff (p : Provider) (cfg : DisconnectConfig) {cookie : Option String}
    (hcookie : truthy cookie = some userId) (hkms : cfg.envelope = some envelope)
    (table : OAuthConnections) :
    Removed userId p.slug table (disconnectRoute p cfg cookie table).2 ↔
      Opens envelope userId p.slug table := by
  cases p with
  | github =>
    refine disconnect_table .github (fun token => ?_) hcookie hkms
    split
    · exact revokeGithubToken_ok cfg token
    · rfl
  | slack =>
    exact disconnect_table .slack (fun token => bestEffort_ok _) hcookie hkms
  | google =>
    exact disconnect_table .google (fun token => bestEffort_ok _) hcookie hkms

/-- What a round trip has stored, opens. -/
theorem stored_opens {draw : Nat} {provider : String} {tokenData : TokenData envelope.py}
    {token : PyValue} {before after : OAuthConnections}
    (h : Stored envelope draw userId provider tokenData token before after) :
    Opens envelope userId provider after := by
  intro row hrow
  have htoken := h.access_token none 0 0 0 (.inl rfl)
  rw [getFreshToken_stored hrow 0 (.inl rfl), Prod.mk.injEq] at htoken
  obtain ⟨plaintext, fields, w, hplaintext, hloads, hlookup, -⟩ := storedToken_ok.mp htoken.1
  exact ⟨plaintext, fields, w, hplaintext, hloads, hlookup⟩

end Routes

/-! ### One row -/

/-- The GitHub connection of `alice`. -/
def connected (blob : Bytes) : OAuthConnections where
  rows := [⟨"alice", "github", blob, none⟩]
  unique := List.pairwise_singleton _ _

/-- A deployment without GitHub credentials, whose providers time out. -/
def deployment (envelope : Crypto.KmsEnvelope) : DisconnectConfig where
  envelope := some envelope
  githubClientId := none
  githubClientSecret := none
  revoke _ _ := .error "ReadTimeout"

/-- `{"access_token": "t"}`. -/
def tokenJson : PyJson := .dict [(PyStr.ofString "access_token", .str (PyStr.ofString "t"))]

/-- What the reversing envelope makes of it. -/
def sealedBlob : Bytes :=
  asciiBytes (Crypto.blobJson [7, UInt8.ofNat 5] (List.replicate Crypto.nonceBytes (UInt8.ofNat 5))
    (asciiBytes tokenJson.dumps).reverse).dumps

/-- The row that holds it is removed. -/
theorem sealed_removed : Removed "alice" "github" (connected sealedBlob) (disconnectRoute .github
    (deployment Crypto.reversingEnvelope) (some "alice") (connected sealedBlob)).2 := by
  refine (disconnect_removes_iff .github (deployment Crypto.reversingEnvelope) rfl rfl
    (connected sealedBlob)).mpr fun row hrow => ?_
  obtain rfl := Option.some.inj hrow
  have hencrypt : Crypto.reversingEnvelope.encrypt 5 (asciiBytes tokenJson.dumps) =
      .ok sealedBlob := rfl
  have hdecrypt := Crypto.KmsEnvelope.decrypt_encrypt Crypto.reversingEnvelope_lawful hencrypt
  have hloads := loads_dumps plainInterpreter tokenJson ⟨trivial, trivial⟩ (by decide)
  exact ⟨_, _, _, hdecrypt, hloads, rfl⟩

/-- The same envelope, where KMS unwraps nothing any more. -/
def deniedEnvelope : Crypto.KmsEnvelope :=
  { Crypto.reversingEnvelope with
    kms := { Crypto.reversingEnvelope.kms with
      decrypt := fun _ => .error "AccessDeniedException" } }

theorem openBlob_denied : openBlob deniedEnvelope sealedBlob =
    .error (.decryption (.kmsDecrypt "AccessDeniedException")) := by
  have hread : Crypto.readBlob deniedEnvelope.py sealedBlob = .ok (.ok ([7, UInt8.ofNat 5],
      List.replicate Crypto.nonceBytes (UInt8.ofNat 5), (asciiBytes tokenJson.dumps).reverse)) :=
    Crypto.readBlob_blobJson
  have hdecrypt : deniedEnvelope.decrypt sealedBlob =
      .decryptionError (.kmsDecrypt "AccessDeniedException") := by
    rw [Crypto.KmsEnvelope.decrypt, hread]
    rfl
  rw [openBlob, hdecrypt]

/-- Then the row stays, and the page is an error. -/
theorem denied_not_removed :
    disconnectRoute .github (deployment deniedEnvelope) (some "alice") (connected sealedBlob) =
      ({ page := .serverError }, connected sealedBlob) ∧
    ¬∀ p cfg cookie userId envelope table, truthy cookie = some userId →
      cfg.envelope = some envelope →
        Removed userId p.slug table (disconnectRoute p cfg cookie table).2 := by
  have hrow : loadRow (connected sealedBlob).rows "alice" Provider.github.slug =
      some ⟨"alice", "github", sealedBlob, none⟩ := rfl
  have hsession : ∀ revoke, disconnectSession deniedEnvelope .github revoke "alice"
      (connected sealedBlob) = .error (.decryption (.kmsDecrypt "AccessDeniedException")) := by
    intro revoke
    unfold disconnectSession
    rw [getFreshToken_stored hrow 0 (.inl rfl), openBlob_denied]
    rfl
  have hroute : disconnectRoute .github (deployment deniedEnvelope) (some "alice")
      (connected sealedBlob) = ({ page := .serverError }, connected sealedBlob) := by
    have hcookie : truthy (some "alice") = some "alice" := rfl
    have hkms : (deployment deniedEnvelope).envelope = some deniedEnvelope := rfl
    unfold disconnectRoute githubDisconnect disconnect
    rw [hcookie, hkms]
    dsimp only
    rw [hsession]
  refine ⟨hroute, fun h => ?_⟩
  have hremoved := h .github (deployment deniedEnvelope) (some "alice") "alice" deniedEnvelope
    (connected sealedBlob) rfl rfl
  rw [hroute] at hremoved
  have hkey := hremoved.1 _ (List.mem_of_find?_eq_some hrow)
  rw [List.find?_some hrow] at hkey
  cases hkey

end TaskScheduler.Web
