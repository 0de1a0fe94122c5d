import Hamlog.Server.ModuleManager
import Hamlog.Server.StorageBackend
import Mathlib.Data.List.DropRight

/-! # The login responder

The `Authorization` header is parsed by `digest_md5_parse`, the user is looked up
in the table of users, and the response is compared with the hash of the stored
password. `MD5::getHashHEX` and `boost::lexical_cast` are parameters. A result
`none` is a crash of the server: an exception that nothing catches, or a string
that is made from a null pointer.
-/
namespace Hamlog.Server
open Foundation Wire StorageBackend

/-- The authentication of a session: `m_authenticated`, `m_id` and `m_username`. -/
structure Account where
  authenticated : Bool := false
  id : ℕ := 0
  username : Bytes := []
  deriving DecidableEq, Repr

/-- `boost::lexical_cast<unsigned long>`, which reads the numbers of the type as they are printed;
`none` is `bad_lexical_cast`. -/
structure LexicalCast where
  read : Bytes → Option ℕ
  read_decimal : ∀ n < 2 ^ 64, read (decimal n) = some n

namespace Login

def usersTable : Table where
  name := bytes "users"
  columns := [⟨bytes "id", .integer, true⟩, ⟨bytes "name", .string, false⟩,
    ⟨bytes "password", .string, false⟩]

def isBlank (c : Byte) : Bool := c ∈ [ch ' ', ch '\t', ch '\r', ch '\n']

/-- The token at the start of a text, up to a comma outside of quotes, and the text from there. -/
def token : Bool → Bytes → Bytes × Bytes
  | _, [] => ([], [])
  | quotes, c :: text =>
    if !quotes && c == ch ',' then ([], c :: text)
    else
      let next := token (if c = quote then !quotes else quotes) text
      (c :: next.1, next.2)

/-- The value of a token, without blanks and quotes around it. -/
def trimValue (value : Bytes) : Bytes :=
  (value.dropWhile fun c => isBlank c || c == quote).rdropWhile fun c =>
    isBlank c || c == ch ',' || c == quote

/-- A token is stored under the text in front of its first `=`. A name without a value is given
a null pointer. -/
def storeToken (ret : StringMap) (token : Bytes) : Option StringMap :=
  let name := token.takeWhile (· ≠ ch '=')
  if name.isEmpty then some ret
  else
    match token.dropWhile (· ≠ ch '=') with
    | [] => none
    | _ :: value => some (ret.insert name (trimValue value))

/-- The loop of `digest_md5_parse`, with fuel for its turns. -/
def digestLoop : ℕ → StringMap → Bytes → Option StringMap
  | 0, ret, _ => some ret
  | fuel + 1, ret, text =>
    if text.isEmpty then some ret
    else
      let next := token false text
      (storeToken ret next.1).bind fun ret =>
        digestLoop fuel ret ((next.2.drop 1).dropWhile fun c => isBlank c || c == ch ',')

/-- Every turn of the loop consumes a byte. -/
def digestMd5Parse (digest : Bytes) : Option StringMap := digestLoop digest.length ∅ digest

/-- The fields that are looked up before the user is. -/
def requiredFields : List Bytes :=
  [bytes "username", bytes "realm", bytes "nonce", bytes "uri", bytes "qop", bytes "response",
    bytes "opaque"]

def nonce : Bytes := bytes "dcd98b7102dd2f0e8b11d0f600bfb0c093"

/-- The fields of the header `Authorization`; `none` is a crash. -/
def authorizationFields (request : Request) : Option StringMap :=
  let auth := request.getHeader (bytes "Authorization")
  if auth.length < 7 then none else digestMd5Parse (cstr (auth.drop 7))

/-- The fields of a request that carries all of them. -/
def credentials (request : Request) : Option StringMap :=
  if request.hasHeader (bytes "Authorization") then
    (authorizationFields request).filter fun fields => requiredFields.all fields.contains
  else none

def createAuthorizationRequest (reply : Reply) : Reply :=
  (((reply.addHeader ⟨bytes "WWW-Authenticate",
    bytes "Digest realm=\"realm@hamlog\",qop=\"auth,auth-int\",nonce=\"" ++ nonce ++
      bytes "\",opaque=\"5ccc069c403ebaf9f0171e9517f40e41\""⟩).setContent
    (bytes "Authentication")).setStatus .unauthorized).setContentType (bytes "text/html")

/-- The query object of the responder as its constructor leaves it. -/
def getUserQuery : Select where
  table := bytes "users"
  what := [bytes "password", bytes "id"]

variable {δ : Type*} (backend : SQLite3 δ) (cast : LexicalCast) (md5 : Bytes → Bytes)

/-- The response that is expected of the user of a stored password. -/
def expectedResponse (password : Bytes) : Bytes :=
  md5 (password ++ bytes ":" ++ nonce ++ bytes ":" ++ md5 (bytes "GET:/login"))

/-- The result of a request: the authentication of its session, the query object, the database and
the reply. -/
structure Result (δ : Type*) where
  account : Account
  getUser : Select
  db : δ
  reply : Reply

/-- The user that was found is compared with the fields. -/
def checkUser (fields : StringMap) (user : List Bytes) (reply : Reply) : Option (Account × Reply) :=
  let username := fields.getD (bytes "username") []
  if expectedResponse md5 (user.headD []) = fields.getD (bytes "response") [] then
    (cast.read (user.getLastD [])).map fun id =>
      (⟨true, id, username⟩,
        (reply.setContent (bytes "Authorized")).setContentType (bytes "text/html"))
  else some ({}, createAuthorizationRequest reply)

def handleRequest (account : Account) (getUser : Select) (db : δ) (request : Request)
    (reply : Reply) : Option (Result δ) :=
  if !request.hasHeader (bytes "Authorization") then
    some ⟨account, getUser, db, createAuthorizationRequest reply⟩
  else
    (authorizationFields request).bind fun fields =>
      if !requiredFields.all fields.contains then
        some ⟨account, getUser, db, createAuthorizationRequest reply⟩
      else
        let getUser := getUser.where_ (bytes "name") (fields.getD (bytes "username") [])
        let selected := backend.select db getUser
        match selected.2.1 with
        | [] => some ⟨{}, getUser, selected.2.2, createAuthorizationRequest reply⟩
        | user :: _ =>
          (checkUser cast md5 fields user reply).map fun checked =>
            ⟨checked.1, getUser, selected.2.2, checked.2⟩

/-! ## The tokens of a text -/

theorem token_append (quotes : Bool) (text : Bytes) :
    (token quotes text).1 ++ (token quotes text).2 = text := by
  induction text generalizing quotes with
  | nil => rfl
  | cons c text ih =>
    rw [token]
    split_ifs
    · rfl
    · simp [ih]
    · simp [ih]

/-- The tokens that the loop comes to. -/
def digestTokens : ℕ → Bytes → List Bytes
  | 0, _ => []
  | fuel + 1, text =>
    if text.isEmpty then []
    else
      let next := token false text
      next.1 :: digestTokens fuel ((next.2.drop 1).dropWhile fun c => isBlank c || c == ch ',')

theorem digestLoop_eq_foldlM (fuel : ℕ) (ret : StringMap) (text : Bytes) :
    digestLoop fuel ret text = (digestTokens fuel text).foldlM storeToken ret := by
  induction fuel generalizing ret text with
  | zero => rfl
  | succ fuel ih =>
    rw [digestLoop, digestTokens]
    split_ifs
    · rfl
    · simp only [List.foldlM_cons, ih]
      rfl

theorem mem_of_mem_next {c : Byte} {text : Bytes}
    (h : c ∈ ((token false text).2.drop 1).dropWhile fun c => isBlank c || c == ch ',') :
    c ∈ text := by
  rw [← token_append false text]
  exact List.mem_append_right _ (List.mem_of_mem_drop ((List.dropWhile_suffix _).subset h))

/-- Every turn of the loop makes its text shorter. -/
theorem next_length_lt {text : Bytes} (h : text ≠ []) :
    (((token false text).2.drop 1).dropWhile fun c => isBlank c || c == ch ',').length <
      text.length := by
  have hlength := congrArg List.length (token_append false text)
  have hsuffix := (List.dropWhile_suffix
    (l := (token false text).2.drop 1) fun c => isBlank c || c == ch ',').length_le
  have hpos := List.length_pos_iff.mpr h
  rw [List.length_append] at hlength
  rw [List.length_drop] at hsuffix
  cases hrest : (token false text).2 with
  | nil =>
    rw [hrest] at hsuffix
    simp only [List.length_nil] at hsuffix
    rw [List.drop_nil, List.dropWhile_nil]
    exact hpos
  | cons c rest =>
    rw [hrest] at hsuffix hlength
    simp only [List.length_cons] at hsuffix hlength
    omega

/-- The loop ends before its fuel does, whatever fuel above the length of the text it is given. -/
theorem digestTokens_fuel {fuel fuel' : ℕ} {text : Bytes} (h : text.length ≤ fuel)
    (h' : text.length ≤ fuel') : digestTokens fuel text = digestTokens fuel' text := by
  have hnil (n : ℕ) : digestTokens n [] = [] := by cases n <;> rfl
  induction fuel generalizing fuel' text with
  | zero =>
    obtain rfl := List.length_eq_zero_iff.mp (Nat.le_zero.mp h)
    rw [hnil, hnil]
  | succ fuel ih =>
    cases fuel' with
    | zero =>
      obtain rfl := List.length_eq_zero_iff.mp (Nat.le_zero.mp h')
      rw [hnil, hnil]
    | succ fuel' =>
      rw [digestTokens, digestTokens]
      split_ifs with hempty
      · rfl
      · have hlt := next_length_lt (List.isEmpty_eq_false_iff.mp (by simpa using hempty))
        exact congrArg _ (ih (by omega) (by omega))

/-! ## The fields of the header -/

theorem mem_of_mem_trimValue {c : Byte} {value : Bytes} (h : c ∈ trimValue value) : c ∈ value :=
  (List.dropWhile_suffix _).subset ((List.rdropWhile_prefix _ _).subset h)

/-- Every value in a map is free of zero bytes. -/
def CStrings (ret : StringMap) : Prop :=
  ∀ name value : Bytes, ret[name]? = some value → 0 ∉ value

theorem storeToken_cStrings {ret stored : StringMap} {token : Bytes} (h : CStrings ret)
    (htoken : 0 ∉ token) (hstore : storeToken ret token = some stored) : CStrings stored := by
  unfold storeToken at hstore
  dsimp only at hstore
  split_ifs at hstore
  · cases hstore
    exact h
  · split at hstore
    · simp at hstore
    · rename_i c value hvalue
      cases hstore
      intro name text htext
      rw [StringMap.getElem?_insert] at htext
      split_ifs at htext
      · cases htext
        intro hzero
        have hmem : (0 : Byte) ∈ c :: value := List.mem_cons_of_mem _ (mem_of_mem_trimValue hzero)
        exact htoken ((List.dropWhile_suffix _).subset (hvalue ▸ hmem))
      · exact h name text htext

theorem digestLoop_cStrings {fuel : ℕ} {ret fields : StringMap} {text : Bytes} (h : CStrings ret)
    (htext : 0 ∉ text) (hloop : digestLoop fuel ret text = some fields) : CStrings fields := by
  induction fuel generalizing ret text with
  | zero =>
    cases hloop
    exact h
  | succ fuel ih =>
    rw [digestLoop] at hloop
    split_ifs at hloop
    · cases hloop
      exact h
    · obtain ⟨stored, hstored, hloop⟩ := Option.bind_eq_some_iff.mp hloop
      have happend := token_append false text
      have hfront : 0 ∉ (token false text).1 := fun hzero =>
        htext (happend ▸ List.mem_append_left _ hzero)
      exact ih (storeToken_cStrings h hfront hstored)
        (fun hzero => htext (mem_of_mem_next hzero)) hloop

theorem authorizationFields_cStrings {request : Request} {fields : StringMap}
    (h : authorizationFields request = some fields) : CStrings fields := by
  unfold authorizationFields at h
  dsimp only at h
  split_ifs at h
  exact digestLoop_cStrings (fun name value hv => by simp at hv) (zero_notMem_cstr _) h

theorem credentials_eq {request : Request} {fields : StringMap}
    (hheader : request.hasHeader (bytes "Authorization") = true)
    (hfields : authorizationFields request = some fields) :
    credentials request = if requiredFields.all fields.contains then some fields else none := by
  rw [credentials, if_pos hheader, hfields, Option.filter_some]

/-! ## The users that are let in -/

/-- The text that a select returns for a column of a row of users. -/
def userText (row : Row) (name : Bytes) : Bytes := cstr ((usersTable.value row name).getD [])

/-- The fields name the user of a row and prove its password; `id` is the identifier of the row. -/
structure Authorizes (fields : StringMap) (row : Row) (id : ℕ) : Prop where
  name : usersTable.value row (bytes "name") = some (fields.getD (bytes "username") [])
  response : fields.getD (bytes "response") [] =
    expectedResponse md5 (userText row (bytes "password"))
  id : cast.read (userText row (bytes "id")) = some id

/-- The query object between requests: its only condition, if any, is on the name. -/
structure QueryOk (getUser : Select) : Prop where
  table : getUser.table = usersTable.name
  what : getUser.what = [bytes "password", bytes "id"]
  wheres : ∀ name value : Bytes, getUser.wheres[name]? = some value → name = bytes "name"

theorem getUserQuery_ok : QueryOk getUserQuery :=
  ⟨rfl, rfl, fun name value h => by simp [getUserQuery] at h⟩

theorem QueryOk.where_ {getUser : Select} (h : QueryOk getUser) (username : Bytes) :
    QueryOk (getUser.where_ (bytes "name") username) := by
  refine ⟨h.table, h.what, fun name value hvalue => ?_⟩
  rw [Select.where_, StringMap.getElem?_insert] at hvalue
  split_ifs at hvalue with hname
  · exact hname.symm
  · exact h.wheres name value hvalue

theorem QueryOk.declared {getUser : Select} (h : QueryOk getUser) :
    ∀ name ∈ getUser.what, name ∈ usersTable.names := by
  have hall : [bytes "password", bytes "id"].all
      (fun name => usersTable.names.contains name) = true := by decide
  rw [h.what]
  exact fun name hname => by simpa using List.all_eq_true.mp hall name hname

theorem QueryOk.filters {getUser : Select} (h : QueryOk getUser) (name value : Bytes)
    (hvalue : getUser.wheres[name]? = some value) : SQLite3.Filters usersTable (name, value) :=
  ⟨⟨bytes "name", .string, false⟩, by decide, (h.wheres name value hvalue).symm, .inl rfl⟩

variable {backend cast md5}

/-- The first row that the select returns is the row of a user of that name. -/
theorem select_user {tables : List Table} (hlaw : backend.Lawful tables)
    (ht : usersTable ∈ tables) (db : δ) {getUser : Select} (hquery : QueryOk getUser)
    {username : Bytes} (hname : 0 ∉ username) :
    let selected := backend.select db (getUser.where_ (bytes "name") username)
    selected.2.2 = db ∧ ∀ user rest, selected.2.1 = user :: rest →
      ∃ row ∈ backend.tableRows db usersTable,
        usersTable.value row (bytes "name") = some username ∧
          user = [userText row (bytes "password"), userText row (bytes "id")] := by
  have hok := hquery.where_ username
  obtain ⟨hdb, hrows, -⟩ := hlaw.select_rows ht db _ hok.table hok.declared hok.filters
  refine ⟨hdb, fun user rest huser => ?_⟩
  have hmem : user ∈ (backend.selected db usersTable [bytes "password", bytes "id"]
      (getUser.where_ (bytes "name") username).wheres.toList).map SQLite3.texts := by
    rw [← hok.what]
    exact hrows.subset (huser ▸ List.mem_cons_self)
  obtain ⟨texts, htexts, rfl⟩ := List.mem_map.mp hmem
  obtain ⟨row, hrow, rfl⟩ := List.mem_map.mp htexts
  obtain ⟨hrow, hsatisfies⟩ := List.mem_filter.mp hrow
  refine ⟨row, hrow, ?_, rfl⟩
  have hequals := SQLite3.satisfies_toList.mp hsatisfies (bytes "name") username
    (by rw [Select.where_, StringMap.getElem?_insert, if_pos rfl])
  have htype : usersTable.typeOf (bytes "name") = .string := by decide
  rwa [htype, hlaw.equals_string, cstr_of_notMem hname] at hequals

theorem checkUser_authorizes {fields : StringMap} {row : Row} {reply : Reply}
    {checked : Account × Reply}
    (hname : usersTable.value row (bytes "name") = some (fields.getD (bytes "username") []))
    (h : checkUser cast md5 fields [userText row (bytes "password"), userText row (bytes "id")]
      reply = some checked) (hauth : checked.1.authenticated = true) :
    Authorizes cast md5 fields row checked.1.id := by
  unfold checkUser at h
  dsimp only at h
  split_ifs at h with hresponse
  · obtain ⟨id, hid, rfl⟩ := Option.map_eq_some_iff.mp h
    exact ⟨hname, hresponse.symm, hid⟩
  · cases h
    simp at hauth

/-- What a request does: without all fields the session stays as it is, and with all of them it is
authenticated only if they prove the password of a user. -/
theorem handleRequest_result {tables : List Table} (hlaw : backend.Lawful tables)
    (ht : usersTable ∈ tables) {account : Account} {getUser : Select} (hquery : QueryOk getUser)
    {db : δ} {request : Request} {reply : Reply} {result : Result δ}
    (h : handleRequest backend cast md5 account getUser db request reply = some result) :
    QueryOk result.getUser ∧ (credentials request = none → result.account = account) ∧
      ∀ fields, credentials request = some fields → result.account.authenticated = true →
        ∃ row ∈ backend.tableRows db usersTable, Authorizes cast md5 fields row
            result.account.id := by
  unfold handleRequest at h
  cases hheader : request.hasHeader (bytes "Authorization") with
  | false =>
    simp only [hheader, Bool.not_false, if_true, Option.some.injEq] at h
    subst h
    exact ⟨hquery, fun _ => rfl, fun fields hfields => by simp [credentials, hheader] at hfields⟩
  | true =>
    simp only [hheader, Bool.not_true, Bool.false_eq_true, if_false] at h
    obtain ⟨fields, hfields, h⟩ := Option.bind_eq_some_iff.mp h
    have hcred := credentials_eq hheader hfields
    cases hall : requiredFields.all fields.contains with
    | false =>
      simp only [hall, Bool.not_false, if_true, Option.some.injEq] at h
      subst h
      rw [hall, if_neg Bool.false_ne_true] at hcred
      exact ⟨hquery, fun _ => rfl, fun other hother => by simp [hcred] at hother⟩
    | true =>
      rw [hall, if_pos rfl] at hcred
      have hnone : ∀ account' : Account, credentials request = none → account' = account := by
        simp [hcred]
      simp only [hall, Bool.not_true, Bool.false_eq_true, if_false] at h
      have husername : 0 ∉ fields.getD (bytes "username") [] := by
        rw [Std.TreeMap.getD_eq_getD_getElem?]
        cases hvalue : fields[bytes "username"]? with
        | none => simp
        | some value => exact authorizationFields_cStrings hfields _ value hvalue
      obtain ⟨-, huser⟩ := select_user hlaw ht db hquery husername
      split at h
      · cases h
        exact ⟨hquery.where_ _, hnone _, fun _ _ hauth => by simp at hauth⟩
      · rename_i user rest hselected
        obtain ⟨row, hrow, hname, rfl⟩ := huser user rest hselected
        obtain ⟨checked, hchecked, rfl⟩ := Option.map_eq_some_iff.mp h
        refine ⟨hquery.where_ _, hnone _, fun other hother hauth => ?_⟩
        cases hcred.symm.trans hother
        exact ⟨row, hrow, checkUser_authorizes hname hchecked hauth⟩

end Login
end Hamlog.Server
