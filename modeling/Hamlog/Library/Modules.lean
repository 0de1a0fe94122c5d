import Hamlog.Library.Connection
import Hamlog.Library.Csv
import Hamlog.Library.HashTable

/-! # The module table of the client

`ham_connect_handle_response` fills the module table of a connection from the
reply to `/modules`. The first row of the reply names the columns.
-/
namespace Hamlog.Library
open Foundation

/-- The texts are copies of fields, or NULL. -/
structure HAMModule where
  uri : Option Bytes := none
  name : Option Bytes := none
  desc : Option Bytes := none
  needAuth : Bool := false
  type : ℤ := 0
  deriving DecidableEq, Repr

/-- The places of the columns. -/
structure ModuleColumns where
  uri : ℤ := -1
  name : ℤ := -1
  desc : ℤ := -1
  needAuth : ℤ := -1
  type : ℤ := -1
  deriving DecidableEq, Repr

/-- The loop over the header, at column `i`. -/
def readColumns : ℤ → ModuleColumns → List Bytes → ModuleColumns
  | _, columns, [] => columns
  | i, columns, field :: fields =>
    readColumns (i + 1)
      (if field = bytes "uri" then { columns with uri := i }
      else if field = bytes "name" then { columns with name := i }
      else if field = bytes "desc" then { columns with desc := i }
      else if field = bytes "need_auth" then { columns with needAuth := i }
      else if field = bytes "type" then { columns with type := i }
      else columns) fields

/-- The loop over the fields of a row, at column `i`. -/
def readModule (columns : ModuleColumns) : ℤ → HAMModule → List Bytes → HAMModule
  | _, module, [] => module
  | i, module, field :: fields =>
    readModule columns (i + 1)
      (if i = columns.uri then { module with uri := some field }
      else if i = columns.name then { module with name := some field }
      else if i = columns.desc then { module with desc := some field }
      else if i = columns.needAuth then { module with needAuth := field.head? == some (ch '1') }
      else if i = columns.type then { module with type := atoi field }
      else module) fields

/-- The loop over the rows behind the header. A module without a URI is a null key. -/
def addModules (columns : ModuleColumns) :
    List (List Bytes) → HAMHashTable HAMModule → Option (HAMHashTable HAMModule)
  | [], table => some table
  | row :: rows, table =>
    let module := readModule columns 0 {} row
    match module.uri with
    | none => none
    | some uri => addModules columns rows (hamHashTableAdd table uri (-1) module)

/-- `start` is what the array of the CSV reader holds. A text without rows has no header to read. -/
def hamConnectionParseModules (start : Bytes) (table : HAMHashTable HAMModule) (modules : Bytes) :
    Option (HAMHashTable HAMModule) :=
  (hamCsvParse start modules).bind fun lines =>
    match lines with
    | [] => none
    | header :: rows => addModules (readColumns 0 {} header) rows table

/-- The table and the signal behind a reply to `/modules`. `none` is an access outside of memory. -/
def hamConnectHandleResponse (start : Bytes) (table : HAMHashTable HAMModule) (reply : HAMReply) :
    Option (HAMHashTable HAMModule × Event) :=
  if reply.status = 200 then
    (hamConnectionParseModules start table (hamReplyGetContent reply)).map
      (·, .signal .connected [])
  else some (table, .signal .disconnected
    (bytes "Error response from server" ++ bytes " while fetching modules"))

/-! ## Where the entries come from -/

/-- Every entry of the table is the module of a row. -/
theorem addModules_entries {columns : ModuleColumns} {rows : List (List Bytes)}
    {table next : HAMHashTable HAMModule} (h : addModules columns rows table = some next)
    {module : HAMModule} (hmodule : module ∈ hamHashTableToList next) :
    module ∈ hamHashTableToList table ∨ ∃ row ∈ rows, module = readModule columns 0 {} row := by
  induction rows generalizing table with
  | nil =>
    obtain rfl := Option.some.inj h
    exact Or.inl hmodule
  | cons row rows ih =>
    simp only [addModules] at h
    split at h
    · exact absurd h (by simp)
    · rcases ih h with hmem | ⟨other, hother, heq⟩
      · rcases mem_hamHashTableAdd hmem with heq | hold
        · exact Or.inr ⟨row, List.mem_cons_self, heq⟩
        · exact Or.inl hold
      · exact Or.inr ⟨other, List.mem_cons_of_mem _ hother, heq⟩

/-- Every entry has a URI, since a null one is no key. -/
theorem addModules_uris {columns : ModuleColumns} {rows : List (List Bytes)}
    {table next : HAMHashTable HAMModule} (h : addModules columns rows table = some next)
    (htable : ∀ module ∈ hamHashTableToList table, module.uri.isSome = true) :
    ∀ module ∈ hamHashTableToList next, module.uri.isSome = true := by
  induction rows generalizing table with
  | nil =>
    obtain rfl := Option.some.inj h
    exact htable
  | cons row rows ih =>
    simp only [addModules] at h
    split at h
    · exact absurd h (by simp)
    · rename_i uri huri
      refine ih h fun module hmodule => ?_
      rcases mem_hamHashTableAdd hmodule with rfl | hold
      · rw [huri]
        rfl
      · exact htable module hold

/-- The texts of a module are fields of its row. -/
theorem readModule_texts {columns : ModuleColumns} {i : ℤ} {module : HAMModule} {row : List Bytes}
    {text : Bytes}
    (h : some text ∈ [(readModule columns i module row).uri, (readModule columns i module row).name,
      (readModule columns i module row).desc]) :
    some text ∈ [module.uri, module.name, module.desc] ∨ text ∈ row := by
  induction row generalizing i module with
  | nil => exact Or.inl h
  | cons field fields ih =>
    rw [readModule] at h
    rcases ih h with hold | hrow
    · split_ifs at hold
      all_goals
        simp only [List.mem_cons, List.not_mem_nil, or_false, Option.some.injEq] at hold ⊢
        tauto
    · exact Or.inr (List.mem_cons_of_mem _ hrow)

end Hamlog.Library
