import Hamlog.Server.Responders.LoginHeader

/-! # The register responder

`/register` stores a new user under the hash of name, realm and password. The
row that is inserted is a map of the responder, which is filled anew by every
request but never cleared.
-/
namespace Hamlog.Server
open Foundation Wire StorageBackend

/-- The member `m`. The responder writes no other keys than these two. -/
structure Register where
  m : StringMap := ∅
  keys : m.AllKeys (· ∈ [bytes "name", bytes "password"]) := by
    intro name value h
    simp at h

namespace Register

def addUserQuery : Insert where
  table := bytes "users"

/-- `m["name"]` and `m["password"]` are assigned. -/
def fill (register : Register) (username password : Bytes) : Register where
  m := (register.m.insert (bytes "name") username).insert (bytes "password") password
  keys := (register.keys.insert (bytes "name") (by simp) username).insert (bytes "password")
    (by simp) password

variable {δ : Type*} (backend : SQLite3 δ) (md5 : Bytes → Bytes)

/-- The hash that is stored for a user. -/
def passwordHash (username password : Bytes) : Bytes :=
  md5 (username ++ bytes ":realm@hamlog:" ++ password)

def handleRequest (register : Register) (db : δ) (request : Request) (reply : Reply) :
    Bool × Register × δ × Reply :=
  if request.method ≠ bytes "GET" then (false, register, db, reply)
  else
    let username := request.getHeader (bytes "username")
    let password := passwordHash md5 username (request.getHeader (bytes "password"))
    let register := register.fill username password
    let inserted := backend.insert db addUserQuery register.m
    if inserted.1 then (true, register, inserted.2, reply.setContent (bytes "Registered"))
    else
      (true, register, inserted.2,
        (reply.setStatus .badRequest).setContent (bytes "This username is already taken."))

/-- The module, over sessions of type `ι`. -/
def responder (ι ω : Type*) : Responder (ι × Account) (δ × Register × ω) where
  uri := bytes "/register"
  name := bytes "Register module"
  needAuthentication := false
  handleRequest _ state request reply :=
    let handled := handleRequest backend md5 state.2.1 state.1 request reply
    (handled.1, handled.2.2.2, (handled.2.2.1, handled.2.1, state.2.2))

/-- Another module beside the register module. -/
def beside {ι ω : Type*} (responder : Responder (ι × Account) (δ × ω)) :
    Responder (ι × Account) (δ × Register × ω) :=
  { responder with
    handleRequest session state request reply :=
      let handled := responder.handleRequest session (state.1, state.2.2) request reply
      (handled.1, handled.2.1, (handled.2.2.1, state.2.1, handled.2.2.2)) }

/-- The modules of the server with the register module. -/
def withRegister {ι ω : Type*} (others : OtherModules ι δ ω) : OtherModules ι δ (Register × ω) where
  modules := responder backend md5 ι ω :: others.modules.map beside
  not_login := by
    intro other hother
    have hne : bytes "/register" ≠ bytes "/login" := by decide
    rcases List.mem_cons.mp hother with rfl | hother
    · exact hne
    · obtain ⟨module, hmodule, rfl⟩ := List.mem_map.mp hother
      exact others.not_login module hmodule

/-! ## The user that is stored -/

theorem getElem?_fill (register : Register) (username password name : Bytes) :
    (register.fill username password).m[name]? =
      if bytes "password" = name then some password
      else if bytes "name" = name then some username else none := by
  rw [fill, StringMap.getElem?_insert, StringMap.getElem?_insert]
  split_ifs with hpassword hname
  · rfl
  · rfl
  · cases hvalue : register.m[name]? with
    | none => rfl
    | some value =>
      have hkey := register.keys name value hvalue
      simp only [List.mem_cons, List.not_mem_nil, or_false] at hkey
      exact absurd hkey (by tauto)

variable {backend md5}

/-- A column that is bound under its own name only holds the text of the map. -/
theorem value_newUser {m : StringMap}
    (hkeys : m.AllKeys (· ∈ [bytes "name", bytes "password"])) {rowid : ℤ} {row : Row}
    (hrow : backend.NewRow Login.usersTable m.toList rowid row) {name value : Bytes}
    (hname : name ∈ [bytes "name", bytes "password"]) (hvalue : m[name]? = some value) :
    Login.usersTable.value row name = some (backend.store .string (cstr value)) := by
  have hcolumn : ⟨name, .string, false⟩ ∈ Login.usersTable.columns := by
    simp only [List.mem_cons, List.not_mem_nil, or_false] at hname
    rcases hname with rfl | rfl <;> decide
  have hspelling : ∀ other ∈ [bytes "name", bytes "password"], sameName other name = true →
      other = name := by
    have hall : [bytes "name", bytes "password"].all (fun name =>
        [bytes "name", bytes "password"].all fun other => !sameName other name || other == name) =
          true := by decide
    intro other hother hsame
    simpa [hsame] using List.all_eq_true.mp (List.all_eq_true.mp hall name hname) other hother
  rcases hrow _ hcolumn with ⟨set, hset, hsame, hstored⟩ | ⟨hnone, -⟩
  · have hget := Std.TreeMap.mem_toList_iff_getElem?_eq_some.mp hset
    obtain rfl := hspelling set.1 (hkeys _ _ hget) hsame
    obtain rfl := Option.some.inj (hvalue.symm.trans hget)
    exact hstored
  · have hself : sameName name name = true := by simp [sameName]
    exact absurd (hself.symm.trans
      (hnone _ (Std.TreeMap.mem_toList_iff_getElem?_eq_some.mpr hvalue))) (by simp)

/-- A registration that is answered with 200 has stored the user. -/
theorem exists_user {tables : List Table} (hlaw : backend.Lawful tables)
    (ht : Login.usersTable ∈ tables) (register : Register) {username password : Bytes}
    (husername : 0 ∉ username) (hpassword : 0 ∉ password) {db : δ}
    (h : (backend.insert db addUserQuery (register.fill username password).m).1 = true) :
    ∃ row ∈ backend.tableRows
        (backend.insert db addUserQuery (register.fill username password).m).2 Login.usersTable,
      Login.usersTable.value row (bytes "name") = some username ∧
        Login.usersTable.value row (bytes "password") = some password := by
  have hget := getElem?_fill register username password
  have hkeys := (register.fill username password).keys
  have hwords : ∀ set ∈ (register.fill username password).m.toList, isWord set.1 = true := by
    intro set hset
    have hname := hkeys.toList set hset
    simp only [List.mem_cons, List.not_mem_nil, or_false] at hname
    rcases hname with hname | hname <;> rw [hname] <;> decide
  rcases hlaw.insert_cases ht db addUserQuery rfl hwords with
    ⟨hfailed, -⟩ | ⟨-, -, before, row, after, -, hrows, hrow, -⟩
  · exact absurd (hfailed.symm.trans h) Bool.false_ne_true
  · have hmem : row ∈ backend.tableRows
        (backend.insert db addUserQuery (register.fill username password).m).2 Login.usersTable :=
      hrows ▸ List.mem_append_right before List.mem_cons_self
    have hne : bytes "password" ≠ bytes "name" := by decide
    refine ⟨row, hmem, ?_, ?_⟩
    · rw [value_newUser hkeys hrow (by simp) ((hget _).trans (by rw [if_neg hne, if_pos rfl])),
        cstr_of_notMem husername, hlaw.store_string]
    · rw [value_newUser hkeys hrow (by simp) ((hget _).trans (if_pos rfl)),
        cstr_of_notMem hpassword, hlaw.store_string]

end Register
end Hamlog.Server
