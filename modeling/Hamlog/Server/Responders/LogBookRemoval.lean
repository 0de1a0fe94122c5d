import Hamlog.Server.Responders.LogBookWrites

/-! # What a request to remove records removes

`removeLog` deletes the records of the ids that `parse` returns for the first
row of the body. A last id that no separator ends is not returned, and the
results of the deletions are not looked at, but the reply is always the same.
-/
namespace Hamlog.Server.LogBook
open Foundation Wire StorageBackend

variable {δ : Type*} (backend : SQLite3 δ)

/-- The ids of the first row of a body, a last one that nothing ends included. -/
def sentIds (content : Bytes) : List Bytes :=
  let tokens := Tokens.scan false {} content
  (tokens.rows ++ [if tokens.field = [] then tokens.row else tokens.row ++ [tokens.field]]).headD []

/-- The ids that are read. -/
def readIds (content : Bytes) : List Bytes := (parse content).headD []

/-- A record has one of some ids. -/
def hasIdOf (ids : List Bytes) (row : Row) : Bool := ids.any fun id => hasId backend id row

/-- If the reply says so, the table has lost the records of the user with the sent ids, and no
others. -/
def RemovesSent (account : Account) (request : Request) (state : LogBook × δ) : Prop :=
  let removed := handleRequest backend account request state.1 state.2 {}
  removed.2.2.2 = ({} : Reply).setContent (bytes "Removed.") →
    backend.tableRows removed.2.2.1 logbookTable =
      (backend.tableRows state.2 logbookTable).filter fun row =>
        !(isOwn account row && hasIdOf backend (sentIds request.content) row)

/-- The ids whose deletion is done. -/
def doneIds (account : Account) : List Bytes → LogBook → δ → List Bytes
  | [], _, _ => []
  | id :: ids, book, db =>
    let removeLog := (book.removeLogQuery.where_ (bytes "id") id).where_ (bytes "user_id")
      (decimal account.id)
    let removed := backend.remove db removeLog
    let rest := doneIds account ids { book with removeLogQuery := removeLog } removed.2
    if removed.1 then id :: rest else rest

/-- The last id of the body is read, or it names no record of the user that the others do not. -/
def LastIdRead (account : Account) (request : Request) (state : LogBook × δ) : Prop :=
  ∀ row ∈ backend.tableRows state.2 logbookTable, isOwn account row = true →
    hasIdOf backend (sentIds request.content) row = true →
    hasIdOf backend (readIds request.content) row = true

/-- Every record of the user that a read id names is named by one whose deletion is done. -/
def DeletionsDone (account : Account) (request : Request) (state : LogBook × δ) : Prop :=
  ∀ row ∈ backend.tableRows state.2 logbookTable, isOwn account row = true →
    hasIdOf backend (readIds request.content) row = true →
    hasIdOf backend (doneIds backend account (readIds request.content) state.1 state.2) row = true

variable {backend}

theorem readIds_subset (content : Bytes) : readIds content ⊆ sentIds content := by
  intro id hid
  simp only [readIds, parse, Tokens.all, sentIds] at hid ⊢
  generalize Tokens.scan false {} content = tokens at hid ⊢
  cases hrows : tokens.rows with
  | nil =>
    simp only [hrows, List.nil_append, List.headD_cons] at hid ⊢
    split_ifs
    · exact hid
    · exact List.mem_append_left _ hid
  | cons row rows =>
    simp only [hrows, List.cons_append, List.headD_cons] at hid ⊢
    exact hid

theorem doneIds_subset (account : Account) (ids : List Bytes) (book : LogBook) (db : δ) :
    doneIds backend account ids book db ⊆ ids := by
  induction ids generalizing book db with
  | nil => exact List.Subset.refl _
  | cons id ids ih =>
    simp only [doneIds]
    split_ifs
    · exact List.cons_subset_cons id (ih _ _)
    · exact List.subset_cons_of_subset id (ih _ _)

theorem hasIdOf_mono {ids others : List Bytes} (h : ids ⊆ others) {row : Row}
    (hrow : hasIdOf backend ids row = true) : hasIdOf backend others row = true := by
  obtain ⟨id, hmem, hhas⟩ := List.any_eq_true.mp hrow
  exact List.any_eq_true.mpr ⟨id, h hmem, hhas⟩

variable {tables : List Table} (hlaw : backend.Lawful tables) (ht : logbookTable ∈ tables)
  {account : Account} (hid : account.id < 2 ^ 63)
include hlaw ht hid

omit ht in
/-- The conditions of a deletion, whatever conditions the query had before. -/
theorem satisfies_removal {query : Select} (hwheres : OwnConditions query.wheres) (id : Bytes)
    (row : Row) :
    OwnConditions ((query.where_ (bytes "id") id).where_ (bytes "user_id")
        (decimal account.id)).wheres ∧
      backend.satisfies logbookTable ((query.where_ (bytes "id") id).where_ (bytes "user_id")
        (decimal account.id)).wheres.toList row = (isOwn account row && hasId backend id row) := by
  have hne : bytes "user_id" ≠ bytes "id" := by decide
  have hboth : OwnConditions ((query.where_ (bytes "id") id).where_ (bytes "user_id")
      (decimal account.id)).wheres := (hwheres.insert (by simp) id).insert (by simp) _
  refine ⟨hboth, satisfies_own hlaw hid hboth ?_ ?_ row⟩
  · rw [Select.where_, StringMap.getElem?_insert, if_pos rfl]
  · rw [Select.where_, Select.where_, StringMap.getElem?_insert, if_neg hne,
      StringMap.getElem?_insert, if_pos rfl]

theorem remove_rows {query : Select} (hquery : query.table = bytes "logbook")
    (hwheres : OwnConditions query.wheres) (id : Bytes) (db : δ) :
    let removed := backend.remove db ((query.where_ (bytes "id") id).where_ (bytes "user_id")
      (decimal account.id))
    backend.tableRows removed.2 logbookTable = (backend.tableRows db logbookTable).filter fun row =>
      !(isOwn account row && removed.1 && hasId backend id row) := by
  have hconditions := satisfies_removal hlaw hid hwheres id
  rcases hlaw.remove_cases ht db ((query.where_ (bytes "id") id).where_ (bytes "user_id")
      (decimal account.id)) hquery (ownConditions_names (hconditions []).1) with
    ⟨hdone, hsame⟩ | ⟨hdone, -, hremoved⟩
  · simp only [hdone, Bool.and_false, Bool.false_and, Bool.not_false, List.filter_true]
    exact hsame _
  · have huser : ((query.where_ (bytes "id") id).where_ (bytes "user_id")
        (decimal account.id)).wheres[bytes "user_id"]? = some (decimal account.id) := by
      rw [Select.where_, StringMap.getElem?_insert, if_pos rfl]
    have hrows := hremoved (ownConditions_filters (hconditions []).1 huser)
    simp only [hdone, Bool.and_true]
    exact hrows.trans (List.filter_congr fun row _ => by rw [(hconditions row).2])

/-- The loop deletes the records of the user with the ids whose deletion is done. -/
theorem removeRecords_rows (ids : List Bytes) {book : LogBook} (hready : Ready book) (db : δ) :
    backend.tableRows (removeRecords backend account ids book db).2 logbookTable =
      (backend.tableRows db logbookTable).filter fun row =>
        !(isOwn account row && hasIdOf backend (doneIds backend account ids book db) row) := by
  induction ids generalizing book db with
  | nil => simp [removeRecords, doneIds, hasIdOf]
  | cons id ids ih =>
    have hwheres := (satisfies_removal hlaw hid hready.removeLog.2 id []).1
    have hrows := remove_rows hlaw ht hid hready.removeLog.1 hready.removeLog.2 id db
    have hready' {removeLogQuery : Select} (hnext : OwnConditions removeLogQuery.wheres)
        (htable : removeLogQuery.table = bytes "logbook") : Ready { book with removeLogQuery } :=
      ⟨hready.getLogs, hready.addLog, htable, hnext⟩
    simp only [removeRecords, doneIds] at hrows ⊢
    rw [ih (hready' hwheres hready.removeLog.1), hrows, List.filter_filter]
    refine List.filter_congr fun row _ => ?_
    cases isOwn account row with
    | false => rfl
    | true => split_ifs with hdone <;> simp [hasIdOf, hdone, Bool.and_comm]

omit hlaw ht hid in
theorem handleRequest_remove {request : Request} (huri : request.uri = bytes "/logbook/remove")
    {book : LogBook} {db : δ} {reply : Reply} :
    handleRequest backend account request book db reply =
      (true, removeLog backend account request book db reply) := by
  rw [handleRequest, huri, if_neg (by decide), if_neg (by decide), if_pos rfl]

/-- In every reachable state, a request removes the records that are sent, and no others, if and
only if its last id is read and the deletions of records that are there are done. -/
theorem removesSent_iff {start : δ} {past : List (Event δ)} {state : LogBook × δ}
    (h : Run backend start past state) {request : Request}
    (huri : request.uri = bytes "/logbook/remove") :
    RemovesSent backend account request state ↔
      LastIdRead backend account request state ∧ DeletionsDone backend account request state := by
  have hrows := removeRecords_rows hlaw ht hid (readIds request.content) (ready_of_run h) state.2
  have hdone {row : Row} : hasIdOf backend (doneIds backend account (readIds request.content)
      state.1 state.2) row = true → hasIdOf backend (readIds request.content) row = true :=
    hasIdOf_mono (doneIds_subset account (readIds request.content) state.1 state.2)
  have hread {row : Row} : hasIdOf backend (readIds request.content) row = true →
      hasIdOf backend (sentIds request.content) row = true :=
    hasIdOf_mono (readIds_subset request.content)
  have hhandled : (handleRequest backend account request state.1 state.2 {}).2.2 =
      ((removeRecords backend account (readIds request.content) state.1 state.2).2,
        ({} : Reply).setContent (bytes "Removed.")) := by
    rw [handleRequest_remove huri]
    rfl
  simp only [RemovesSent, hhandled, forall_const, hrows]
  constructor
  · intro hexact
    have hsent {row : Row} (hrow : row ∈ backend.tableRows state.2 logbookTable)
        (hown : isOwn account row = true)
        (hsent : hasIdOf backend (sentIds request.content) row = true) :
        hasIdOf backend (doneIds backend account (readIds request.content) state.1 state.2) row =
          true := by
      by_contra hkept
      have hmem : row ∈ (backend.tableRows state.2 logbookTable).filter fun row =>
          !(isOwn account row && hasIdOf backend (doneIds backend account
            (readIds request.content) state.1 state.2) row) :=
        List.mem_filter.mpr ⟨hrow, by simpa [hown] using hkept⟩
      rw [hexact, List.mem_filter] at hmem
      simp [hown, hsent] at hmem
    exact ⟨fun row hrow hown hid => hdone (hsent hrow hown hid),
      fun row hrow hown hid => hsent hrow hown (hread hid)⟩
  · rintro ⟨hlast, hdeletions⟩
    refine List.filter_congr fun row hrow => ?_
    cases hown : isOwn account row with
    | false => rfl
    | true =>
      have hiff := Bool.eq_iff_iff.mpr ⟨fun hid => hread (hdone hid),
        fun hid => hdeletions row hrow hown (hlast row hrow hown hid)⟩
      rw [hiff]

omit hlaw ht hid

/-- A request to remove two records of the user. -/
def sampleRemove (ending : Bytes) : Request where
  uri := bytes "/logbook/remove"
  content := bytes "1;3" ++ ending

/-- The last id is closed by a newline. -/
theorem removesSent_iff_closed : ∃ state, Run sampleBackend sampleDatabase sampleEvents state ∧
    (RemovesSent sampleBackend sampleAccount (sampleRemove (bytes "\n")) state ↔
      LastIdRead sampleBackend sampleAccount (sampleRemove (bytes "\n")) state ∧
        DeletionsDone sampleBackend sampleAccount (sampleRemove (bytes "\n")) state) := by
  have hexec : (System.exec (system sampleBackend sampleDatabase) (fun _ _ => true)
      ({}, sampleDatabase) sampleEvents).any (fun _ => true) = true := by decide +kernel
  obtain ⟨state, hrun, -⟩ := System.exists_run_of_exec hexec
  exact ⟨state, hrun, removesSent_iff sampleBackend_lawful (by decide) (by decide) hrun rfl⟩

/-- Without the newline, the last record stays. -/
theorem not_removesSent_open :
    ¬ RemovesSent sampleBackend sampleAccount (sampleRemove []) ({}, sampleDatabase) := by
  intro h
  have hrows := h (by decide +kernel)
  exact absurd (congrArg List.length hrows) (by decide +kernel)

end Hamlog.Server.LogBook
