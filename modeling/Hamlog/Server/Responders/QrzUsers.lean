import Hamlog.Foundation.Relational
import Hamlog.Foundation.Runs
import Hamlog.Server.PrimaryKeys
import Hamlog.Server.Responders.Login
import Hamlog.Server.Responders.Qrz

/-! # The QRZ accounts

`QRZ::addUser` inserts the account of a user, and updates it if the insert
fails. The query of the update is the one of the insert, and nobody has ever
given it a condition.
-/
namespace Hamlog.Server
open Foundation Wire StorageBackend

/-- The members `m_addUser`, `m_getUser` and `m_addData`; `m_addUser` points to `m_addData`. -/
structure QRZUsers where
  addUserQuery : Insert := { table := bytes "qrz_users" }
  getUserQuery : Select :=
    { table := bytes "qrz_users", what := [bytes "name", bytes "password"] }
  addData : StringMap := ∅

namespace QRZUsers

def usersTable : Table where
  name := bytes "qrz_users"
  columns := [⟨bytes "user_id", .integer, true⟩, ⟨bytes "name", .string, false⟩,
    ⟨bytes "password", .string, false⟩]

/-- `m_addData` is filled with the account of a user. -/
def fillData (data : StringMap) (account : Account) (username password : Bytes) : StringMap :=
  ((data.insert (bytes "name") username).insert (bytes "password") password).insert
    (bytes "user_id") (decimal account.id)

variable {δ : Type*} (backend : SQLite3 δ) (parse : Bytes → Document)

/-- The module over the backend, for the sessions of a user. -/
def service (account : Account) : QRZ (QRZUsers × δ) where
  parse := parse
  select users :=
    let query := users.1.getUserQuery.where_ (bytes "user_id") (decimal account.id)
    (backend.select users.2 query).2.1.head?.map fun user => (user.headD [], user.getLastD [])
  insert users username password :=
    let addData := fillData users.1.addData account username password
    let inserted := backend.insert users.2 users.1.addUserQuery addData
    (inserted.1, { users.1 with addData }, inserted.2)
  update users _ _ :=
    let updated := backend.update users.2 users.1.addUserQuery users.1.addData
    (updated.1, users.1, updated.2)

/-! ## Runs -/

/-- A request of a session with what it holds for the module, or a change of the database by
somebody else. -/
inductive Event (δ : Type*) where
  | request (account : Account) (data : Option QRZModuleData) (pending : List Operation)
    (request : Request)
  | change (db : δ)

def system (start : δ) : System (QRZUsers × δ) (Event δ) where
  start := ({}, start)
  enabled _ _ := true
  step
    | users, .request account data pending request =>
      some ((service backend parse account).handleRequest 0 ⟨data, pending, users⟩
        request {}).2.2.env
    | users, .change db => some (users.1, db)

/-- The runs of the module over all requests. -/
abbrev Run (start : δ) (past : List (Event δ)) (users : QRZUsers × δ) : Prop :=
  System.Run (system backend parse start) (fun _ _ => true) past users

/-- The query between requests, without conditions, and the columns of its row. -/
structure Ready (users : QRZUsers) : Prop where
  query : users.addUserQuery = { table := bytes "qrz_users" }
  data : users.addData.AllKeys (· ∈ usersTable.names)

variable {backend parse}

theorem allKeys_fillData {data : StringMap} (h : data.AllKeys (· ∈ usersTable.names))
    (account : Account) (username password : Bytes) :
    (fillData data account username password).AllKeys (· ∈ usersTable.names) :=
  ((h.insert _ (by decide) username).insert _ (by decide) password).insert _ (by decide) _

theorem addUser_ready {account : Account} {state : QRZState (QRZUsers × δ)} {request : Request}
    {reply : Reply} (h : Ready state.env.1) :
    Ready ((service backend parse account).addUser state request reply).2.env.1 := by
  have hfilled : Ready { state.env.1 with
      addData := fillData state.env.1.addData account (request.getHeader (bytes "username"))
        (request.getHeader (bytes "password")) } :=
    ⟨h.query, allKeys_fillData h.data account _ _⟩
  unfold QRZ.addUser
  dsimp only
  split_ifs <;> exact hfilled

theorem askQRZ_env {ε : Type*} (qrz : QRZ ε) (id : ℕ) (state : QRZState ε) (reply : Reply)
    (call : Bytes) : (qrz.askQRZ id state reply call).2.env = state.env := by
  unfold QRZ.askQRZ
  dsimp only
  split_ifs
  · rfl
  · cases qrz.select state.env with
    | none => rfl
    | some user => rfl

theorem ready_of_run {start : δ} {past : List (Event δ)} {users : QRZUsers × δ}
    (h : Run backend parse start past users) : Ready users.1 := by
  refine System.Run.invariant (I := fun _ users => Ready users.1)
    ⟨rfl, fun name value hvalue => by simp [system] at hvalue⟩ ?_ h
  intro past users event next hready _ _ hstep
  cases event with
  | change db =>
    cases hstep
    exact hready
  | request account data pending request =>
    cases hstep
    unfold QRZ.handleRequest
    split_ifs
    · exact (congrArg (fun users => Ready users.1)
        (askQRZ_env (service backend parse account) 0 ⟨data, pending, users⟩ {} _)).mpr hready
    · exact addUser_ready hready
    · exact hready
    · exact hready

/-! ## A registration -/

/-- The account of a user. -/
def isOf (account : Account) (row : Row) : Bool :=
  usersTable.value row (bytes "user_id") == some (decimal account.id)

/-- A row with the account of a user. -/
structure IsAccount (account : Account) (username password : Bytes) (row : Row) : Prop where
  user : isOf account row = true
  name : usersTable.value row (bytes "name") = some username
  password : usersTable.value row (bytes "password") = some password

/-- The table holds one account of the user, with this name and password, and the accounts of all
others as before. -/
def Registered (account : Account) (username password : Bytes) (old new : List Row) : Prop :=
  (∃ row, new.filter (isOf account) = [row] ∧ IsAccount account username password row) ∧
    Isolated (isOf account) old new

/-- The request is answered with success and the account is registered. -/
def Registers (backend : SQLite3 δ) (parse : Bytes → Document) (account : Account)
    (request : Request) (state : QRZState (QRZUsers × δ)) : Prop :=
  let added := (service backend parse account).addUser state request {}
  added.1.status = .ok ∧
    Registered account (request.getHeader (bytes "username"))
      (request.getHeader (bytes "password")) (backend.tableRows state.env.2 usersTable)
      (backend.tableRows added.2.env.2 usersTable)

/-- `m_addData` behind a registration. -/
def filled (account : Account) (request : Request) (users : QRZUsers) : StringMap :=
  fillData users.addData account (request.getHeader (bytes "username"))
    (request.getHeader (bytes "password"))

/-- The status and the database behind a registration. -/
theorem addUser_outcome (backend : SQLite3 δ) (parse : Bytes → Document) (account : Account)
    (state : QRZState (QRZUsers × δ)) (request : Request) :
    let inserted := backend.insert state.env.2 state.env.1.addUserQuery
      (filled account request state.env.1)
    let updated := backend.update inserted.2 state.env.1.addUserQuery
      (filled account request state.env.1)
    let added := (service backend parse account).addUser state request {}
    (added.1.status, added.2.env.2) =
      if inserted.1 then (.ok, inserted.2)
      else if updated.1 then (.ok, updated.2) else (.badRequest, updated.2) := by
  intro inserted updated added
  cases hinserted : inserted.1 with
  | true =>
    have hadded : added = _ := if_pos hinserted
    rw [hadded]
    rfl
  | false =>
    have hrest : added = _ := if_neg (Bool.eq_false_iff.mp hinserted)
    cases hupdated : updated.1 with
    | true =>
      have hadded : added = _ := hrest.trans (if_pos hupdated)
      rw [hadded]
      rfl
    | false =>
      have hadded : added = _ := hrest.trans (if_neg (Bool.eq_false_iff.mp hupdated))
      rw [hadded]
      rfl

/-- The values of headers that the parser accepts hold no zero byte. -/
theorem zero_notMem_getHeader {request : Request} (h : ∀ header ∈ request.headers, header.Clean)
    (name : Bytes) : 0 ∉ request.getHeader name := by
  rw [Request.getHeader]
  cases hfind : request.headers.find? (·.name == name) with
  | none => exact List.not_mem_nil
  | some header =>
    intro hzero
    have hcontrol := (h header (List.mem_of_find?_eq_some hfind)).value_clean 0 hzero
    exact absurd hcontrol (by decide)

theorem getElem?_fillData {data : StringMap} (h : data.AllKeys (· ∈ usersTable.names))
    (account : Account) (username password name : Bytes) :
    (fillData data account username password)[name]? =
      if name = bytes "user_id" then some (decimal account.id)
      else if name = bytes "password" then some password
      else if name = bytes "name" then some username else none := by
  simp only [fillData, StringMap.getElem?_insert, eq_comm (b := name)]
  split_ifs with huser hpassword hname
  · rfl
  · rfl
  · rfl
  · cases hvalue : data[name]? with
    | none => rfl
    | some value =>
      have hmem := h name value hvalue
      simp only [usersTable, Table.names, List.map_cons, List.map_nil, List.mem_cons,
        List.not_mem_nil, or_false] at hmem
      exact absurd hmem (by simp [huser, hpassword, hname])

/-- The key of the table. -/
def keyColumn : Column := ⟨bytes "user_id", .integer, true⟩

/-- The statements of a registration bind a row. -/
theorem bindsRow_fillData {data : StringMap} (h : data.AllKeys (· ∈ usersTable.names))
    {account : Account} (hid : account.id < 2 ^ 63) (username password : Bytes) :
    SQLite3.BindsRow usersTable (fillData data account username password).toList keyColumn
      account.id := by
  have hget := getElem?_fillData h account username password
  refine ⟨?_, by decide, rfl, ?_, hid⟩
  · rw [Std.TreeMap.map_fst_toList_eq_keys, List.perm_ext_iff_of_nodup Std.TreeMap.nodup_keys
      (by decide)]
    intro name
    rw [Std.TreeMap.mem_keys, Std.TreeMap.mem_iff_isSome_getElem?, hget]
    have hnames : usersTable.names = [bytes "user_id", bytes "name", bytes "password"] := rfl
    rw [hnames]
    simp only [List.mem_cons, List.not_mem_nil, or_false]
    split_ifs with huser hpassword hname
    · simp [huser]
    · simp [hpassword]
    · simp [hname]
    · simp [huser, hpassword, hname]
  · rw [Std.TreeMap.mem_toList_iff_getElem?_eq_some, hget]
    exact if_pos rfl

theorem isAccount_of_isRow {tables : List Table} (hlaw : backend.LawfulKeys tables)
    {data : StringMap} (h : data.AllKeys (· ∈ usersTable.names)) {account : Account}
    (hid : account.id < 2 ^ 63) {username password : Bytes} (hname : 0 ∉ username)
    (hpassword : 0 ∉ password) {row : Row}
    (hrow : backend.IsRow usersTable (fillData data account username password).toList row) :
    IsAccount account username password row := by
  have hget := getElem?_fillData h account username password
  have hvalue {name value : Bytes} (hbound : (fillData data account username password)[name]? =
      some value) : usersTable.value row name =
        some (backend.store (usersTable.typeOf name) (cstr value)) :=
    hrow (name, value) (Std.TreeMap.mem_toList_iff_getElem?_eq_some.mpr hbound)
  have htypes : usersTable.typeOf (bytes "user_id") = .integer ∧
      usersTable.typeOf (bytes "name") = .string ∧
        usersTable.typeOf (bytes "password") = .string := by decide
  refine ⟨?_, ?_, ?_⟩
  · rw [isOf, hvalue (by rw [hget, if_pos rfl]), htypes.1, cstr_decimal,
      hlaw.store_integer _ hid, beq_self_eq_true]
  · rw [hvalue (by rw [hget, if_neg (by decide), if_neg (by decide), if_pos rfl]), htypes.2.1,
      hlaw.store_string, cstr_of_notMem hname]
  · rw [hvalue (by rw [hget, if_neg (by decide), if_pos rfl]), htypes.2.2, hlaw.store_string,
      cstr_of_notMem hpassword]

/-! ## The condition -/

/-- A new account of a user who has none. -/
theorem registered_insert {account : Account} {username password : Bytes} {old new : List Row}
    {row : Row} (hrow : IsAccount account username password row)
    (hnone : old.any (isOf account) = false) (hnew : new.Perm (row :: old)) :
    Registered account username password old new := by
  refine ⟨⟨row, ?_, hrow⟩, Isolated.insert row hrow.user hnew⟩
  have hempty : old.filter (isOf account) = [] :=
    List.filter_eq_nil_iff.mpr fun other hother =>
      List.any_eq_false.mp hnone other hother
  have hfilter := hnew.filter (isOf account)
  rw [List.filter_cons_of_pos hrow.user, hempty] at hfilter
  exact List.perm_singleton.mp hfilter

/-- The only account, changed. -/
theorem registered_update {account : Account} {username password : Bytes} {old row : Row}
    {new : List Row} (hold : isOf account old = true)
    (hrow : IsAccount account username password row) (hnew : new.Perm [row]) :
    Registered account username password [old] new := by
  obtain rfl := List.perm_singleton.mp hnew
  refine ⟨⟨row, List.filter_cons_of_pos hrow.user, hrow⟩, ?_⟩
  refine Isolated.update (fun _ => true) (fun _ => row) ?_ ?_ (List.Perm.refl _)
  · simpa using hold
  · simpa using hrow.user

section Laws
variable {tables : List Table} (hlaw : backend.LawfulKeys tables) (ht : usersTable ∈ tables)
  {users : QRZUsers} (hready : Ready users) {account : Account} (hid : account.id < 2 ^ 63)
  {request : Request} (hclean : ∀ header ∈ request.headers, header.Clean) (db : δ)
include hlaw ht hready hid hclean

/-- The insert is a success if and only if the user has no account. -/
theorem insert_account :
    let inserted := backend.insert db users.addUserQuery (filled account request users)
    let old := backend.tableRows db usersTable
    let new := backend.tableRows inserted.2 usersTable
    (old.any (isOf account) = true → inserted.1 = false ∧ new = old) ∧
      (old.any (isOf account) = false → inserted.1 = true ∧
        Registered account (request.getHeader (bytes "username"))
          (request.getHeader (bytes "password")) old new) := by
  have hinsert := hlaw.insert ht db (bindsRow_fillData hready.data hid
    (request.getHeader (bytes "username")) (request.getHeader (bytes "password")))
  rw [show usersTable.name = users.addUserQuery.table by rw [hready.query]; rfl] at hinsert
  change if (backend.tableRows db usersTable).any (isOf account) = true then _ else _ at hinsert
  split_ifs at hinsert with hany
  · exact ⟨fun _ => ⟨hinsert.1, hinsert.2 _⟩, fun hnone => absurd (hany.symm.trans hnone) (by simp)⟩
  · obtain ⟨hdone, -, row, hrow, hnew⟩ := hinsert
    exact ⟨fun hsome => absurd hsome hany, fun hnone => ⟨hdone, registered_insert
      (isAccount_of_isRow hlaw hready.data hid (zero_notMem_getHeader hclean _)
        (zero_notMem_getHeader hclean _) hrow) hnone hnew⟩⟩

/-- The update, which sets the key of every row, is a success if and only if there is no second
one. -/
theorem update_account (hsome : (backend.tableRows db usersTable).any (isOf account) = true) :
    let updated := backend.update db users.addUserQuery (filled account request users)
    let old := backend.tableRows db usersTable
    (old.length ≠ 1 → updated.1 = false) ∧
      (old.length = 1 → updated.1 = true ∧
        Registered account (request.getHeader (bytes "username"))
          (request.getHeader (bytes "password")) old
          (backend.tableRows updated.2 usersTable)) := by
  have hwheres : users.addUserQuery.wheres.toList = [] := by
    rw [hready.query]
    rfl
  have hall (row : Row) :
      backend.satisfies usersTable users.addUserQuery.wheres.toList row = true := by
    rw [hwheres]
    rfl
  have hfilters : ∀ cond ∈ users.addUserQuery.wheres.toList,
      SQLite3.Filters usersTable cond := by
    simp [hwheres]
  have hupdate := hlaw.update ht db (bindsRow_fillData hready.data hid
    (request.getHeader (bytes "username")) (request.getHeader (bytes "password"))) hfilters
  rw [show usersTable.name = users.addUserQuery.table by rw [hready.query]; rfl] at hupdate
  simp only [hall, Bool.true_or, List.countP_true, if_true] at hupdate
  have hpos : 1 ≤ (backend.tableRows db usersTable).length :=
    List.length_pos_of_ne_nil fun hnil => by simp [hnil] at hsome
  split_ifs at hupdate with hlength
  · exact ⟨fun _ => hupdate.1, fun hone => absurd hone (by omega)⟩
  · obtain ⟨hdone, -, f, hrow, hnew⟩ := hupdate
    refine ⟨fun hne => absurd hlength (by omega), fun hone => ⟨hdone, ?_⟩⟩
    obtain ⟨old, hold⟩ := List.length_eq_one_iff.mp hone
    rw [hold] at hrow hnew hsome ⊢
    exact registered_update (by simpa using hsome) (isAccount_of_isRow hlaw hready.data hid
      (zero_notMem_getHeader hclean _) (zero_notMem_getHeader hclean _) (hrow old (by simp))) hnew

end Laws

/-- In every reachable state, a registration succeeds and is stored if and only if the user has no
account yet, or the only one of the table. -/
theorem registers_iff {tables : List Table} (hlaw : backend.LawfulKeys tables)
    (ht : usersTable ∈ tables) {start : δ} {past : List (Event δ)}
    {state : QRZState (QRZUsers × δ)} (h : Run backend parse start past state.env)
    {account : Account} (hid : account.id < 2 ^ 63) {request : Request}
    (hclean : ∀ header ∈ request.headers, header.Clean) :
    Registers backend parse account request state ↔
      ((∃ row ∈ backend.tableRows state.env.2 usersTable, isOf account row = true) →
        (backend.tableRows state.env.2 usersTable).length = 1) := by
  have hready := ready_of_run h
  obtain ⟨hrefused, haccepted⟩ := insert_account hlaw ht hready hid hclean state.env.2
  have hcond : (∃ row ∈ backend.tableRows state.env.2 usersTable, isOf account row = true) ↔
      (backend.tableRows state.env.2 usersTable).any (isOf account) = true :=
    List.any_eq_true.symm
  have houtcome : (((service backend parse account).addUser state request {}).1.status,
      ((service backend parse account).addUser state request {}).2.env.2) = _ :=
    addUser_outcome backend parse account state request
  rw [hcond]
  unfold Registers
  cases hany : (backend.tableRows state.env.2 usersTable).any (isOf account) with
  | false =>
    obtain ⟨hdone, hregistered⟩ := haccepted hany
    rw [if_pos hdone] at houtcome
    obtain ⟨hstatus, hdb⟩ := Prod.mk.inj houtcome
    simp only [hstatus, hdb, true_and]
    exact ⟨fun _ hfalse => absurd hfalse (by simp), fun _ => hregistered⟩
  | true =>
    obtain ⟨hdone, hsame⟩ := hrefused hany
    rw [hdone, if_neg Bool.false_ne_true] at houtcome
    obtain ⟨hmany, hone⟩ := update_account hlaw ht hready hid hclean
      (backend.insert state.env.2 state.env.1.addUserQuery
        (filled account request state.env.1)).2 (by rw [hsame]; exact hany)
    simp only [hsame] at hmany hone
    by_cases hlength : (backend.tableRows state.env.2 usersTable).length = 1
    · rw [if_pos (hone hlength).1] at houtcome
      obtain ⟨hstatus, hdb⟩ := Prod.mk.inj houtcome
      simp only [hstatus, hdb, true_and]
      exact ⟨fun _ _ => hlength, fun _ => (hone hlength).2⟩
    · rw [hmany hlength, if_neg Bool.false_ne_true] at houtcome
      obtain ⟨hstatus, -⟩ := Prod.mk.inj houtcome
      simp only [hstatus]
      exact ⟨fun hfalse => absurd hfalse.1 (by simp),
        fun hlength' => absurd (hlength' trivial) hlength⟩

/-! ## Two users -/

def sampleBackend : SQLite3 SampleEngine.Database := KeyEngine.backend [usersTable]

def sampleDatabase (users : List ℕ) : SampleEngine.Database where
  rows name := if name = bytes "qrz_users" then
    users.map fun id => [some (decimal id), some (bytes "ok1kvk"), some (bytes "secret")] else []
  lastRowid := 0

def sampleRequest : Request where
  uri := bytes "/qrz/register"
  headers := [⟨bytes "username", bytes "ok2jrq"⟩, ⟨bytes "password", bytes "tajne"⟩]

def sampleAccount : Account := ⟨true, 7, bytes "hanicka"⟩

/-- A registration of another user, which is undone by somebody else. -/
def sampleEvents : List (Event SampleEngine.Database) :=
  [.request ⟨true, 8, bytes "petr"⟩ none [] sampleRequest, .change (sampleDatabase [7])]

theorem registers_iff_sampleEvents : ∃ users,
    Run sampleBackend (fun _ => {}) (sampleDatabase []) sampleEvents users ∧
      (Registers sampleBackend (fun _ => {}) sampleAccount sampleRequest ⟨none, [], users⟩ ↔
        ((∃ row ∈ sampleBackend.tableRows users.2 usersTable, isOf sampleAccount row = true) →
          (sampleBackend.tableRows users.2 usersTable).length = 1)) := by
  have hexec : (System.exec (system sampleBackend (fun _ => {}) (sampleDatabase []))
      (fun _ _ => true) ({}, sampleDatabase []) sampleEvents).any (fun _ => true) = true := by
    decide +kernel
  obtain ⟨users, hrun, -⟩ := System.exists_run_of_exec hexec
  have hlaw : sampleBackend.LawfulKeys [usersTable] :=
    KeyEngine.backend_lawfulKeys (by decide) (by decide)
  have hstate : Run sampleBackend (fun _ => {}) (sampleDatabase []) sampleEvents
      (⟨none, [], users⟩ : QRZState (QRZUsers × SampleEngine.Database)).env := hrun
  exact ⟨users, hrun, registers_iff hlaw (by decide) hstate (by decide) (by decide)⟩

/-- With an account of another user in the table, a changed password is refused. -/
theorem not_registers_second :
    ¬ Registers sampleBackend (fun _ => {}) sampleAccount sampleRequest
      ⟨none, [], {}, sampleDatabase [7, 8]⟩ := by
  intro h
  exact absurd h.1 (by decide +kernel)

end QRZUsers
end Hamlog.Server
