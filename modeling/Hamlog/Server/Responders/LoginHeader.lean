import Hamlog.Server.AuthenticationGate

/-! # The login responder over any header

The loop of `digest_md5_parse` stores the tokens of a text one by one. A token
with a name and no `=` has no value, and a header that is shorter than its
scheme has no rest; the login responder crashes on both and on nothing else.
-/
namespace Hamlog.Server.Login
open Foundation Wire StorageBackend

/-! ## Which headers crash the server -/

/-- A token is stored unless it has a name and no value. -/
theorem storeToken_isSome (ret : StringMap) (token : Bytes) :
    (storeToken ret token).isSome ↔ token = [] ∨ ch '=' ∈ token := by
  have hsplit := List.takeWhile_append_dropWhile (p := fun c => decide (c ≠ ch '=')) (l := token)
  unfold storeToken
  cases hname : token.takeWhile (· ≠ ch '=') with
  | nil =>
    cases token with
    | nil => simp
    | cons c token =>
      have hc : c = ch '=' := by
        by_contra hne
        simp [hne] at hname
      simp [hc]
  | cons c name =>
    have hne : token ≠ [] := by
      rintro rfl
      simp at hname
    cases hvalue : token.dropWhile (· ≠ ch '=') with
    | nil =>
      have hmem : ch '=' ∉ token := by
        rw [← hsplit, hvalue, List.append_nil]
        intro hmem
        simpa using List.mem_takeWhile_imp hmem
      simp [hne, hmem]
    | cons d value =>
      have hd := List.head?_dropWhile_not (fun c => decide (c ≠ ch '=')) token
      rw [hvalue] at hd
      have hmem : ch '=' ∈ token := by
        rw [← hsplit, hvalue, List.mem_append]
        refine Or.inr ?_
        have hdeq : d = ch '=' := by simpa using hd
        exact hdeq ▸ List.mem_cons_self
      simp [hmem]

theorem foldlM_storeToken_isSome (tokens : List Bytes) (ret : StringMap) :
    (tokens.foldlM storeToken ret).isSome ↔ ∀ token ∈ tokens, token = [] ∨ ch '=' ∈ token := by
  induction tokens generalizing ret with
  | nil => simp
  | cons token tokens ih =>
    have htoken := storeToken_isSome ret token
    rw [List.foldlM_cons, List.forall_mem_cons, ← htoken]
    cases storeToken ret token with
    | none => simp
    | some stored => simpa using ih stored

/-- A header value with a rest behind the scheme, each token of which is empty or has a `=`. -/
def Valued (auth : Bytes) : Prop :=
  7 ≤ auth.length ∧
    ∀ token ∈ digestTokens (cstr (auth.drop 7)).length (cstr (auth.drop 7)),
      token = [] ∨ ch '=' ∈ token

instance (auth : Bytes) : Decidable (Valued auth) :=
  inferInstanceAs (Decidable (_ ∧ ∀ _ ∈ _, _))

theorem authorizationFields_isSome (request : Request) :
    (authorizationFields request).isSome ↔ Valued (request.getHeader (bytes "Authorization")) := by
  unfold authorizationFields Valued
  dsimp only
  split_ifs with hshort
  · simp [Nat.not_le.mpr hshort]
  · rw [digestMd5Parse, digestLoop_eq_foldlM, foldlM_storeToken_isSome]
    exact (and_iff_right (Nat.not_lt.mp hshort)).symm

/-! ## The whole request -/

/-- The identifiers of the users as an integer primary key that is never set by hand. -/
def AutomaticIds {δ : Type*} (backend : SQLite3 δ) (db : δ) : Prop :=
  ∀ row ∈ backend.tableRows db usersTable, ∃ n < 2 ^ 63,
    usersTable.value row (bytes "id") = some (decimal n)

variable {δ : Type*} {backend : SQLite3 δ} {cast : LexicalCast} {md5 : Bytes → Bytes}

/-- A request with the header returns normally if and only if its fields are read. -/
theorem handleRequest_isSome {tables : List Table} (hlaw : backend.Lawful tables)
    (ht : usersTable ∈ tables) {getUser : Select} (hquery : QueryOk getUser) {db : δ}
    (hids : AutomaticIds backend db) (account : Account) {request : Request}
    (hheader : request.hasHeader (bytes "Authorization") = true) (reply : Reply) :
    (handleRequest backend cast md5 account getUser db request reply).isSome ↔
      (authorizationFields request).isSome := by
  unfold handleRequest
  simp only [hheader, Bool.not_true, Bool.false_eq_true, if_false]
  cases hfields : authorizationFields request with
  | none => simp
  | some fields =>
    have husername : 0 ∉ fields.getD (bytes "username") [] := by
      rw [Std.TreeMap.getD_eq_getD_getElem?]
      cases hvalue : fields[bytes "username"]? with
      | none => simp
      | some value => exact authorizationFields_cStrings hfields _ value hvalue
    obtain ⟨-, huser⟩ := select_user hlaw ht db hquery husername
    simp only [Option.bind_some, Option.isSome_some, iff_true]
    split_ifs
    · rfl
    · split
      · rfl
      · rename_i user rest hselected
        obtain ⟨row, hrow, -, rfl⟩ := huser user rest hselected
        obtain ⟨n, hn, hvalue⟩ := hids row hrow
        have hid : userText row (bytes "id") = decimal n := by
          rw [userText, hvalue, Option.getD_some, cstr_decimal]
        have hcast := cast.read_decimal n (by omega)
        simp only [checkUser, List.getLastD_cons, List.getLastD_nil, hid, hcast]
        split_ifs <;> rfl

variable {ι ω : Type*} [DecidableEq ι] {others : OtherModules ι δ ω}

/-- In every state of the server, a request with a header `Authorization` returns normally if and
only if every token behind the scheme has a value. -/
theorem returns_iff_valued {tables : List Table} (hlaw : backend.Lawful tables)
    (ht : usersTable ∈ tables) {start : δ} {state : ω} {past : List (Gate.Event ι δ ω)}
    {server : ServerState ι δ ω} (h : Gate.Run backend cast md5 others start state past server)
    (hids : AutomaticIds backend server.db) (sid : ι) {request : Request}
    (hheader : request.hasHeader (bytes "Authorization") = true) (reply : Reply) :
    (handleRequest backend cast md5 (server.accounts sid) server.getUser server.db request
        reply).isSome ↔ Valued (request.getHeader (bytes "Authorization")) := by
  rw [handleRequest_isSome hlaw ht (Gate.guarded_of_run hlaw ht h).query hids _ hheader,
    authorizationFields_isSome]

theorem returns_sampleAuthorization : ∃ server,
    Gate.Run LogBook.sampleBackend Gate.sampleCast Gate.sampleMd5 Gate.sampleModules
      Gate.sampleUsers {} Gate.sampleLogins server ∧
    ((handleRequest LogBook.sampleBackend Gate.sampleCast Gate.sampleMd5 (server.accounts 2)
      server.getUser server.db { headers := [Gate.sampleAuthorization] } {}).isSome ↔
        Valued Gate.sampleAuthorization.value) := by
  have hids : (System.exec (Gate.system LogBook.sampleBackend Gate.sampleCast Gate.sampleMd5
      Gate.sampleModules
      Gate.sampleUsers {}) (fun _ _ => true) { db := Gate.sampleUsers, others := {} }
      Gate.sampleLogins).any (fun server =>
        LogBook.sampleBackend.tableRows server.db usersTable ==
          [[some (decimal 7), some (bytes "hanicka"), some (bytes "secret")]]) = true := by
    decide +kernel
  obtain ⟨server, hrun, hrows⟩ := System.exists_run_of_exec hids
  refine ⟨server, hrun, returns_iff_valued LogBook.sampleBackend_lawful (by decide) hrun ?_ 2
    (by decide) {}⟩
  intro row hrow
  rw [beq_iff_eq.mp hrows] at hrow
  obtain rfl := List.mem_singleton.mp hrow
  exact ⟨7, by norm_num, by decide⟩

/-- The name `username` has no value, and a short value has no place 7. -/
theorem not_returns_nameOnly :
    (handleRequest LogBook.sampleBackend Gate.sampleCast Gate.sampleMd5 {} getUserQuery
      Gate.sampleUsers
      { headers := [⟨bytes "Authorization", bytes "Digest username"⟩] } {}).isSome = false ∧
    (handleRequest LogBook.sampleBackend Gate.sampleCast Gate.sampleMd5 {} getUserQuery
      Gate.sampleUsers
      { headers := [⟨bytes "Authorization", bytes "Basic"⟩] } {}).isSome = false := by
  decide +kernel

end Hamlog.Server.Login
