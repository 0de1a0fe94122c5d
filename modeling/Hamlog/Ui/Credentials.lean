import Hamlog.Server.InstalledModules
import Hamlog.Wire.LoginExchange

/-! # The credentials of a client

A name and a password, what it means for them to be registered and logged in at
a server, and how the server answers the response to its challenge: it refuses
it, or the session is logged in as a user whose password it is right for.
-/
namespace Hamlog.Ui
open Foundation Library Server StorageBackend Wire

/-- A name and a password that the headers of the account functions can carry. -/
structure Credentials (md5 : Bytes → Bytes) where
  username : Bytes
  password : Bytes
  name : LoginName username
  clean : ∀ c ∈ password, isControl c = false
  fits : (responseText md5 username password).length < 512

namespace Credentials
variable {δ ι ω : Type*} {backend : SQLite3 δ} {cast : LexicalCast} {md5 : Bytes → Bytes}
    {tables : List Table}

variable (backend) in
def Registered (credentials : Credentials md5) (db : δ) : Prop :=
  ∃ row ∈ backend.tableRows db Login.usersTable,
    Login.usersTable.value row (bytes "name") = some credentials.username ∧
    Login.usersTable.value row (bytes "password") =
      some (Register.passwordHash md5 credentials.username credentials.password)

/-- The row of the user whose stored password the client's password answers for. -/
def OpenedBy (credentials : Credentials md5) (row : Row) (id : ℕ) : Prop :=
  Login.usersTable.value row (bytes "name") = some credentials.username ∧
    Login.usersTable.value row (bytes "id") = some (decimal id) ∧
    Login.expectedResponse md5 (Login.userText row (bytes "password")) =
      loginResponse md5 credentials.username credentials.password realm Login.nonce

variable (backend) in
/-- The session is logged in as the user of the account. -/
def SignedIn (credentials : Credentials md5) (session : ι) (server : ServerState ι δ ω) : Prop :=
  ∃ row ∈ backend.tableRows server.db Login.usersTable, ∃ id, credentials.OpenedBy row id ∧
    server.accounts session = ⟨true, id, credentials.username⟩

def response (credentials : Credentials md5) : HAMRequest :=
  loginRequest (responseText md5 credentials.username credentials.password)

theorem response_clean (hmd5 : HexDigest md5) (credentials : Credentials md5) :
    ∀ c ∈ responseText md5 credentials.username credentials.password, isControl c = false :=
  authorizationText_clean credentials.name (hmd5.loginName _)

theorem response_headers (credentials : Credentials md5) :
    (received credentials.response).headers = [⟨bytes "Authorization",
      responseText md5 credentials.username credentials.password⟩] := by
  simp [received, response, loginRequest, hamAccountLogin,
    List.take_of_length_le (Nat.le_of_lt_succ credentials.fits)]

def authorized : Reply :=
  (({} : Reply).setContent (bytes "Authorized")).setContentType (bytes "text/html")

/-- A response is refused, or it logs in as a user that it is right for. -/
theorem handleRequest_response (hlaw : backend.Lawful tables) (ht : Login.usersTable ∈ tables)
    (hmd5 : HexDigest md5) (credentials : Credentials md5) {db : δ} {getUser : Select}
    (hquery : Login.QueryOk getUser) (hids : Login.AutomaticIds backend db) (account : Account) :
    ∃ result, Login.handleRequest backend cast md5 account getUser db
        (received credentials.response) {} = some result ∧
      (result.reply = Login.createAuthorizationRequest {} ∨ result.reply = authorized ∧
        ∃ row ∈ backend.tableRows db Login.usersTable, ∃ id, credentials.OpenedBy row id ∧
          result.account = ⟨true, id, credentials.username⟩) := by
  have hdigest : LoginName (loginResponse md5 credentials.username credentials.password realm
      Login.nonce) := hmd5.loginName _
  obtain ⟨fields, hfields, hrequired, hname, hresponse⟩ := authorizationFields_text
    credentials.name hdigest credentials.response_headers
  have hheader : (received credentials.response).hasHeader (bytes "Authorization") = true := by
    rw [Request.hasHeader, credentials.response_headers]
    simp
  have hzero : 0 ∉ credentials.username := fun hmem =>
    absurd (credentials.name.control 0 hmem) (by decide)
  rw [Login.handleRequest, hheader, hfields]
  simp only [Bool.not_true, Bool.false_eq_true, if_false, Option.bind_some, hrequired, hname]
  cases hselected : (backend.select db
      (getUser.where_ (bytes "name") credentials.username)).2.1 with
  | nil => exact ⟨_, rfl, .inl rfl⟩
  | cons user rest =>
    obtain ⟨row, hrow, hvalue, rfl⟩ := (Login.select_user hlaw ht db hquery hzero).2 _ _ hselected
    obtain ⟨id, hlt, hid⟩ := hids row hrow
    have hcast : cast.read (Login.userText row (bytes "id")) = some id := by
      rw [Login.userText, hid, Option.getD_some, cstr_decimal,
        cast.read_decimal id (hlt.trans (by norm_num))]
    simp only [Login.checkUser, List.headD_cons, List.getLastD_cons, List.getLastD_nil, hname,
      hresponse, hcast, Option.map_some]
    by_cases hright : Login.expectedResponse md5 (Login.userText row (bytes "password")) =
        loginResponse md5 credentials.username credentials.password realm Login.nonce
    · rw [if_pos hright]
      exact ⟨_, rfl, .inr ⟨rfl, row, hrow, id, ⟨hvalue, hid, hright⟩, rfl⟩⟩
    · rw [if_neg hright]
      exact ⟨_, rfl, .inl rfl⟩

theorem handleRequest_registered (hlaw : backend.Lawful tables) (ht : Login.usersTable ∈ tables)
    (hmd5 : HexDigest md5) {credentials : Credentials md5} {db : δ} {getUser : Select}
    (hquery : Login.QueryOk getUser) (hids : Login.AutomaticIds backend db)
    (hregistered : credentials.Registered backend db) (hunique : UniqueNames backend db)
    (hdone : (backend.select db (getUser.where_ (bytes "name") credentials.username)).1 = true)
    {account : Account} {result : Login.Result δ}
    (hresult : Login.handleRequest backend cast md5 account getUser db
      (received credentials.response) {} = some result) : result.reply = authorized := by
  obtain ⟨row, hrow, hname, hhash⟩ := hregistered
  obtain ⟨id, -, hhandled⟩ := Wire.handleRequest_response hlaw ht hmd5 credentials.name hquery hids
    hunique hdone hrow hname hhash account credentials.response_headers
  exact congrArg Login.Result.reply (Option.some.inj (hresult.symm.trans hhandled))

variable [DecidableEq ι] {others : OtherModules ι δ ω}

theorem exchange_response (hlaw : backend.Lawful tables) (ht : Login.usersTable ∈ tables)
    (hmd5 : HexDigest md5) (credentials : Credentials md5) (session : ι)
    {server : ServerState ι δ (Register × ω)} (hquery : Login.QueryOk server.getUser)
    (hids : Login.AutomaticIds backend server.db) :
    ∃ reply server', exchange (accountManager backend cast md5 others) session server
        credentials.response = some (reply, server') ∧ server'.crashed = server.crashed ∧
      (reply.status ≠ 401 → credentials.SignedIn backend session server') ∧
      (credentials.Registered backend server.db → UniqueNames backend server.db →
        (backend.select server.db
          (server.getUser.where_ (bytes "name") credentials.username)).1 = true →
        reply.status ≠ 401) := by
  obtain ⟨result, hresult, hreply⟩ := handleRequest_response hlaw ht hmd5 credentials hquery hids
    (server.accounts session)
  have hdb := Login.handleRequest_db hlaw ht hquery hresult
  obtain ⟨hformed, hfits, hcontent, -⟩ := createAuthorizationRequest_shape
  have hshape : WellFormed authorized ∧ FitsClient authorized ∧ ∃ c ∈ authorized.content, c ≠ cr :=
    ⟨(wellFormed_new.setContent _).setContentType html_clean,
      (fitsClient_new.setContent (by decide) (by decide)).setContentType (by decide),
      ch 'A', by decide, by decide⟩
  have hcodes : (Login.createAuthorizationRequest {}).status.code = 401 ∧
      authorized.status.code ≠ 401 := by decide
  have hshapes : WellFormed result.reply ∧ FitsClient result.reply ∧
      ∃ c ∈ result.reply.content, c ≠ cr := by
    rcases hreply with hreply | ⟨hreply, -⟩
    · exact hreply ▸ ⟨hformed, hfits, hcontent⟩
    · exact hreply ▸ hshape
  obtain ⟨reply, hexchange, hstatus, -⟩ := exchange_eq (accountManager backend cast md5 others)
    (sendable_response (response_clean hmd5 credentials)) (answer_login rfl hresult) hshapes.1
    hshapes.2.1 hshapes.2.2
  refine ⟨reply, _, hexchange, rfl, fun hne => ?_, fun hregistered hunique hdone => ?_⟩
  · rcases hreply with hreply | ⟨-, row, hrow, id, hopened, haccount⟩
    · exact absurd (hstatus.trans (hreply ▸ hcodes.1)) hne
    · exact ⟨row, hdb.symm ▸ hrow, id, hopened, (Function.update_self ..).trans haccount⟩
  · rw [hstatus, handleRequest_registered hlaw ht hmd5 hquery hids hregistered hunique hdone
      hresult]
    exact hcodes.2

end Credentials
end Hamlog.Ui
