import Hamlog.Server.InstalledModules
import Hamlog.Server.Responders.LogBookRemoval
import Hamlog.Server.Responders.LogBookRoundTrip
import Hamlog.Wire.CsvTables
import Hamlog.Wire.ServiceExchange

/-! # The records that the widget shows

A fetch clears the tree and fills it with the lines of the reply, and a removal
takes the current item out of the tree without waiting for its reply. Between
the server and the tree are the select, the reply, its parser, the tokens and
the search for an item with the same id.
-/
namespace Hamlog.Ui
open Foundation Wire Library Server StorageBackend

/-- What the widget uses of Qt: the seconds of a text printed as a date, and the labels of a tree
behind `setHeaderLabels`, which takes no column away. -/
structure Qt where
  dateText : Bytes → Bytes
  setHeaderLabels : List Bytes → List Bytes → List Bytes
  setHeaderLabels_covers : ∀ {headerLabels labels : List Bytes},
    headerLabels.length ≤ labels.length → setHeaderLabels headerLabels labels = labels

/-- The tree of `LogbookTreeWidget`: an item has a text for each column. -/
structure LogbookItems where
  headerLabels : List Bytes := [bytes "1"]
  items : List (ℕ → Bytes) := []
  currentItem : Option ℕ := none

namespace LogbookItems

/-- `indexes[header] = i++` for every label. -/
def indexesOf (labels : List Bytes) : Std.TreeMap Bytes ℕ compare :=
  labels.zipIdx.foldl (fun indexes label => indexes.insert label.1 label.2) ∅

def findColumnWithName (labels : List Bytes) (name : Bytes) : Option ℕ := labels.idxOf? name

section
variable (dateText : Bytes → Bytes)

/-- `setText` for one of the indexes. `dateText` prints the seconds of a text as a date; a column
that is not there takes no text, and a token that is not there crashes. -/
def setColumn (headerLabels tokens : List Bytes) (item : ℕ → Bytes) (index : Bytes × ℕ) :
    Option (ℕ → Bytes) :=
  (tokens[index.2]?).map fun text =>
    let text := if index.1 = bytes "qsodate" then dateText text else text
    (findColumnWithName headerLabels index.1).elim item
      (Function.update item · text)

/-- `itemFromCSV`: the first item with the id, or a new one, gets the texts. The index of a label
that is missing is 0. -/
def itemFromCSV (tree : LogbookItems) (tokens : List Bytes)
    (indexes : Std.TreeMap Bytes ℕ compare) : Option LogbookItems := do
  let indexes := indexes.insertIfNew (bytes "id") 0
  let id ← tokens[indexes.getD (bytes "id") 0]?
  let items := if tree.items.any (· 0 == id) then tree.items else tree.items ++ [fun _ => []]
  let position := (tree.items.findIdx? (· 0 == id)).getD tree.items.length
  let item ← indexes.toList.foldlM (setColumn dateText tree.headerLabels tokens)
    (items.getD position fun _ => [])
  some { tree with items := items.set position item, currentItem := some position }

end

/-- `fetch_handler`. -/
def fetchHandler (qt : Qt) (tree : LogbookItems) (logbook : Bytes) (error : Bool) :
    Option LogbookItems :=
  if error then some tree
  else
    let tokens := QtLogBook.tokenize (cstr logbook)
    let labels := tokens.headD []
    let headerLabels := qt.setHeaderLabels tree.headerLabels labels
    (tokens.tail.filter fun row => 1 < row.length).foldlM
      (fun tree row => itemFromCSV qt.dateText tree row (indexesOf labels)) { headerLabels }

/-- `removeRecord`: the current item is taken out, and its id is sent. The view makes another item
the current one. -/
def removeRecord (tree : LogbookItems) (next : Option ℕ) : Option (LogbookItems × Bytes) := do
  let position ← tree.currentItem
  let item ← tree.items[position]?
  some ({ tree with items := tree.items.eraseIdx position, currentItem := next },
    item 0 ++ bytes "\n")

/-! ## A row that becomes an item -/

variable {labels : List Bytes} (hnodup : labels.Nodup)
include hnodup

theorem getElem?_indexesOf {name : Bytes} {i : ℕ} :
    (indexesOf labels)[name]? = some i ↔ labels[i]? = some name := by
  induction labels using List.reverseRecOn with
  | nil => simp [indexesOf]
  | append_singleton labels last ih =>
    obtain ⟨hfront, -, hlast⟩ := List.nodup_append.mp hnodup
    have hinsert : indexesOf (labels ++ [last]) = (indexesOf labels).insert last labels.length := by
      simp [indexesOf, List.zipIdx_append]
    rw [hinsert]
    simp only [Std.TreeMap.getElem?_insert, Std.LawfulEqCmp.compare_eq_iff_eq]
    by_cases hname : last = name
    · subst hname
      rw [if_pos rfl, Option.some.injEq]
      refine ⟨fun h => h ▸ by simp, fun h => ?_⟩
      by_contra hi
      have hmem : last ∈ labels := by
        have hlt : i < labels.length := by
          have hi' := (List.getElem?_eq_some_iff.mp h).1
          simp only [List.length_append, List.length_singleton] at hi'
          omega
        rw [List.getElem?_append_left hlt] at h
        exact List.mem_of_getElem? h
      exact hlast last hmem last (List.mem_singleton_self last) rfl
    · rw [if_neg hname, ih hfront]
      by_cases hi : i < labels.length
      · rw [List.getElem?_append_left hi]
      · rw [List.getElem?_append_right (by omega), List.getElem?_eq_none (by omega)]
        cases hd : i - labels.length with
        | zero => simp [hname]
        | succ d => simp

omit hnodup in
/-- The item of a row. -/
def shown (dateText : Bytes → Bytes) (labels tokens : List Bytes) (column : ℕ) : Bytes :=
  match labels[column]? with
  | none => []
  | some label => if label = bytes "qsodate" then dateText (tokens.getD column [])
    else tokens.getD column []

variable (dateText : Bytes → Bytes) {tokens : List Bytes} (hlength : labels.length ≤ tokens.length)
include hlength

/-- The columns of some labels are filled. -/
theorem foldlM_setColumn {indexes : List (Bytes × ℕ)}
    (h : ∀ index ∈ indexes, labels[index.2]? = some index.1) (item : ℕ → Bytes) :
    indexes.foldlM (setColumn dateText labels tokens) item = some fun column =>
      if column ∈ indexes.map (·.2) then shown dateText labels tokens column else item column := by
  induction indexes generalizing item with
  | nil => simp
  | cons index indexes ih =>
    obtain ⟨hindex, hrest⟩ := List.forall_mem_cons.mp h
    obtain ⟨hlt, hlabel⟩ := List.getElem?_eq_some_iff.mp hindex
    have htoken : tokens[index.2]? = some (tokens.getD index.2 []) := by
      simp [List.getElem?_eq_getElem (hlt.trans_le hlength)]
    have hcolumn : findColumnWithName labels index.1 = some index.2 := by
      refine List.idxOf?_eq_some_iff.mpr ⟨hlt, hlabel, fun j hj heq => ?_⟩
      have hsame := (hnodup.getElem_inj_iff).mp (heq.trans hlabel.symm)
      omega
    have hset : setColumn dateText labels tokens item index =
        some (Function.update item index.2 (shown dateText labels tokens index.2)) := by
      rw [setColumn, htoken, Option.map_some, hcolumn, shown, hindex]
      rfl
    rw [List.foldlM_cons, hset, Option.bind_eq_bind, Option.bind_some, ih hrest]
    congr 1
    funext column
    by_cases hmem : column ∈ indexes.map (·.2)
    · simp [hmem]
    · by_cases heq : column = index.2
      · subst heq
        simp [hmem]
      · simp [hmem, heq]

/-- A row whose id no item has becomes an item of its own. -/
theorem itemFromCSV_new {tree : LogbookItems} (hlabels : tree.headerLabels = labels)
    (hid : labels[0]? = some (bytes "id"))
    (hnew : ∀ item ∈ tree.items, item 0 ≠ tokens.getD 0 []) :
    itemFromCSV dateText tree tokens (indexesOf labels) =
      some { headerLabels := labels, items := tree.items ++ [shown dateText labels tokens],
             currentItem := some tree.items.length } := by
  have hmem : bytes "id" ∈ indexesOf labels := by
    rw [← Std.TreeMap.isSome_getElem?_iff_mem, (getElem?_indexesOf hnodup).mpr hid]
    rfl
  have hget {name : Bytes} {i : ℕ} :
      ((indexesOf labels).insertIfNew (bytes "id") 0)[name]? = some i ↔
        labels[i]? = some name := by
    rw [Std.TreeMap.getElem?_insertIfNew, if_neg fun h => h.2 hmem]
    exact getElem?_indexesOf hnodup
  have htoken : tokens[0]? = some (tokens.getD 0 []) := by
    have hlt := (List.getElem?_eq_some_iff.mp hid).1
    simp [List.getElem?_eq_getElem (hlt.trans_le hlength)]
  have hindexes : ∀ index ∈ ((indexesOf labels).insertIfNew (bytes "id") 0).toList,
      labels[index.2]? = some index.1 := fun index hindex =>
    hget.mp (Std.TreeMap.mem_toList_iff_getElem?_eq_some.mp hindex)
  have hcolumns (column : ℕ) :
      (if column ∈ ((indexesOf labels).insertIfNew (bytes "id") 0).toList.map (·.2) then
        shown dateText labels tokens column else []) = shown dateText labels tokens column := by
    split_ifs with hcolumn
    · rfl
    · cases hlabel : labels[column]? with
      | none => simp [shown, hlabel]
      | some label =>
        refine absurd (List.mem_map.mpr ⟨(label, column), ?_, rfl⟩) hcolumn
        exact Std.TreeMap.mem_toList_iff_getElem?_eq_some.mpr (hget.mpr hlabel)
  have hposition : tree.items.findIdx? (· 0 == tokens.getD 0 []) = none :=
    List.findIdx?_eq_none_iff.mpr fun item hitem => by simpa using hnew item hitem
  have hany : tree.items.any (· 0 == tokens.getD 0 []) = false :=
    List.any_eq_false.mpr fun item hitem => by simpa using hnew item hitem
  unfold itemFromCSV
  dsimp only
  rw [Std.TreeMap.getD_eq_getD_getElem?, hget.mpr hid, Option.getD_some, htoken,
    Option.bind_eq_bind, Option.bind_some, hposition, hany, hlabels,
    foldlM_setColumn hnodup dateText hlength hindexes]
  simp [hcolumns]

omit hnodup hlength in
theorem shown_id (hid : labels[0]? = some (bytes "id")) :
    shown dateText labels tokens 0 = tokens.getD 0 [] := by
  have hne : bytes "id" ≠ bytes "qsodate" := by decide
  rw [shown, hid]
  exact if_neg hne

omit hlength in
/-- Rows with different ids become items of their own, in their order. -/
theorem foldlM_itemFromCSV (hid : labels[0]? = some (bytes "id")) {rows : List (List Bytes)}
    (hrows : ∀ row ∈ rows, labels.length ≤ row.length) {tree : LogbookItems}
    (hlabels : tree.headerLabels = labels)
    (hcurrent : ∀ position ∈ tree.currentItem, position < tree.items.length)
    (hdistinct : (tree.items.map (· 0) ++ rows.map (·.getD 0 [])).Nodup) :
    ∃ filled, rows.foldlM (fun tree row => itemFromCSV dateText tree row (indexesOf labels)) tree =
        some filled ∧ filled.headerLabels = labels ∧
      (∀ position ∈ filled.currentItem, position < filled.items.length) ∧
      filled.items = tree.items ++ rows.map (shown dateText labels) := by
  induction rows generalizing tree with
  | nil => exact ⟨tree, rfl, hlabels, hcurrent, by simp⟩
  | cons row rows ih =>
    obtain ⟨hrow, hrest⟩ := List.forall_mem_cons.mp hrows
    have hnew : ∀ item ∈ tree.items, item 0 ≠ row.getD 0 [] := fun item hitem =>
      (List.nodup_append.mp hdistinct).2.2 _ (List.mem_map_of_mem hitem) _ (by simp)
    have hadded := itemFromCSV_new hnodup dateText hrow hlabels hid hnew
    have hnext : ((tree.items ++ [shown dateText labels row]).map (· 0) ++
        rows.map (·.getD 0 [])).Nodup := by
      rw [List.map_append, List.map_singleton, shown_id dateText hid, List.append_assoc]
      exact hdistinct
    let next : LogbookItems := ⟨labels, tree.items ++ [shown dateText labels row],
      some tree.items.length⟩
    have hcurrent' : ∀ position ∈ next.currentItem, position < next.items.length := by simp [next]
    obtain ⟨filled, hfilled, hfilledLabels, hposition, hitems⟩ := ih hrest rfl hcurrent' hnext
    refine ⟨filled, ?_, hfilledLabels, hposition, ?_⟩
    · rw [List.foldlM_cons, hadded, Option.bind_eq_bind, Option.bind_some]
      exact hfilled
    · rw [hitems, List.append_assoc]
      rfl

end LogbookItems

/-! ## The lines of the server -/

namespace LogbookItems
variable {account : Account}

/-- The texts of a record in the tree. -/
def shownRecord (dateText : Bytes → Bytes) (row : Row) : ℕ → Bytes :=
  shown dateText LogBook.headerColumns (LogBook.recordTexts row)

/-- Records without separators in their texts, whose ids are numbers and differ. -/
structure PlainRecords (rows : List Row) : Prop where
  plain : ∀ row ∈ rows, ∀ text ∈ LogBook.recordTexts row, ∀ c ∈ text, Tokens.isPlain c
  ids : ∀ row ∈ rows, ∃ n < 2 ^ 63,
    LogBook.logbookTable.value row (bytes "id") = some (decimal n)
  distinct : (rows.map (LogBook.logbookTable.value · (bytes "id"))).Nodup

theorem PlainRecords.subset {rows others : List Row} (h : PlainRecords rows)
    (hsub : others.Subperm rows) : PlainRecords others where
  plain row hrow := h.plain row (hsub.subset hrow)
  ids row hrow := h.ids row (hsub.subset hrow)
  distinct := by
    obtain ⟨front, hperm, hfront⟩ := hsub
    exact (hperm.map _).nodup_iff.mp (h.distinct.sublist (hfront.map _))

theorem headerColumns_lt (row : Row) :
    LogBook.headerColumns.length < (LogBook.recordTexts row).length := by
  rw [LogBook.recordTexts, LogBook.names_eq, List.length_map, List.length_append]
  exact Nat.lt_add_one _

theorem PlainRecords.shown_id {rows : List Row} (h : PlainRecords rows) {dateText : Bytes → Bytes}
    {row : Row} (hrow : row ∈ rows) :
    LogBook.logbookTable.value row (bytes "id") = some (shownRecord dateText row 0) := by
  obtain ⟨n, -, hn⟩ := h.ids row hrow
  have htexts : (LogBook.recordTexts row).getD 0 [] =
      cstr ((LogBook.logbookTable.value row (bytes "id")).getD []) := rfl
  rw [shownRecord, LogbookItems.shown_id dateText rfl, htexts, hn, Option.getD_some, cstr_decimal]

theorem tokenize_sentLines {rows : List Row} (h : PlainRecords rows) :
    QtLogBook.tokenize (LogBook.sentLines rows) =
      LogBook.headerColumns :: rows.map LogBook.recordTexts ++ [[]] := by
  have hplain : ∀ row ∈ LogBook.headerColumns :: rows.map LogBook.recordTexts, row ≠ [] ∧
      ∀ text ∈ row, ∀ c ∈ text, Tokens.isPlain c := by
    refine List.forall_mem_cons.mpr ⟨⟨by simp [LogBook.headerColumns], LogBook.headerColumns_plain⟩,
      List.forall_mem_map.mpr fun row hrow => ⟨?_, h.plain row hrow⟩⟩
    exact List.ne_nil_of_length_pos (Nat.zero_lt_of_lt (headerColumns_lt row))
  have htext : LogBook.sentLines rows =
      tableText (LogBook.headerColumns :: rows.map LogBook.recordTexts) := by
    have hsame : LogBook.header ++ rows.flatMap LogBook.line =
        tableText (LogBook.headerColumns :: rows.map LogBook.recordTexts) := by
      rw [LogBook.header_eq, tableText, List.flatMap_cons, List.flatMap_map]
      rfl
    rw [LogBook.sentLines, hsame]
    refine List.filter_eq_self.mpr fun c hc => decide_eq_true fun heq => ?_
    exact (tableText_clean fun row hrow => (hplain row hrow).2).2 (heq ▸ hc)
  have hstands := List.forall₂_same.mpr fun row hrow =>
    LogBook.stands_self (hplain row hrow).2
  rw [htext]
  exact tokenize_finished (scan_tableText hstands (fun row hrow => (hplain row hrow).1) [])

/-- Whatever the tree was, the lines of the server fill it with the records. -/
theorem fetchHandler_sentLines {rows : List Row} (h : PlainRecords rows) {tree : LogbookItems}
    (hlabels : tree.headerLabels.length ≤ LogBook.headerColumns.length)
    (qt : Qt) :
    ∃ filled, fetchHandler qt tree (LogBook.sentLines rows) false = some filled ∧
      filled.headerLabels = LogBook.headerColumns ∧
      (∀ position ∈ filled.currentItem, position < filled.items.length) ∧
      filled.items = rows.map (shownRecord qt.dateText) := by
  have hlengths := headerColumns_lt
  have hkept : (rows.map LogBook.recordTexts ++ [[]]).filter (fun row => 1 < row.length) =
      rows.map LogBook.recordTexts := by
    have htwo : 1 < LogBook.headerColumns.length := by simp [LogBook.headerColumns]
    have hall : ∀ row ∈ rows.map LogBook.recordTexts, decide (1 < row.length) = true :=
      List.forall_mem_map.mpr fun row _ => decide_eq_true (htwo.trans (hlengths row))
    rw [List.filter_append, List.filter_eq_self.mpr hall]
    simp
  have hheader : qt.setHeaderLabels tree.headerLabels LogBook.headerColumns =
      LogBook.headerColumns := qt.setHeaderLabels_covers hlabels
  have hdistinct : ((rows.map LogBook.recordTexts).map (·.getD 0 [])).Nodup := by
    have hids : rows.map (LogBook.logbookTable.value · (bytes "id")) =
        ((rows.map LogBook.recordTexts).map (·.getD 0 [])).map some := by
      rw [List.map_map, List.map_map]
      refine List.map_congr_left fun row hrow => ?_
      have hvalue : LogBook.logbookTable.value row (bytes "id") =
          some (shownRecord qt.dateText row 0) := h.shown_id hrow
      exact hvalue.trans (congrArg some (LogbookItems.shown_id qt.dateText rfl))
    exact List.Nodup.of_map some (hids ▸ h.distinct)
  have hlong : ∀ row ∈ rows.map LogBook.recordTexts, LogBook.headerColumns.length ≤ row.length :=
    List.forall_mem_map.mpr fun row _ => (hlengths row).le
  let empty : LogbookItems := { headerLabels := LogBook.headerColumns }
  have hcurrent : ∀ position ∈ empty.currentItem, position < empty.items.length := by simp [empty]
  obtain ⟨filled, hfilled, hfilledLabels, hposition, hitems⟩ :=
    foldlM_itemFromCSV LogBook.headerColumns_nodup.1 qt.dateText rfl hlong rfl hcurrent hdistinct
  refine ⟨filled, ?_, hfilledLabels, hposition, hitems.trans (List.map_map ..)⟩
  rw [fetchHandler, if_neg Bool.false_ne_true, cstr_of_notMem (LogBook.zero_notMem_sentLines rows),
    tokenize_sentLines h]
  simp only [List.cons_append, List.headD_cons, List.tail_cons, hkept, hheader]
  exact hfilled

theorem exists_removeRecord {tree : LogbookItems} {position : ℕ}
    (hcurrent : tree.currentItem = some position) (hlt : position < tree.items.length)
    (next : Option ℕ) : ∃ removed, tree.removeRecord next = some removed := by
  simp [removeRecord, hcurrent, List.getElem?_eq_getElem hlt]

/-- The record of the current item is taken out of the tree, and no other. -/
theorem removeRecord_items {rows : List Row} (h : PlainRecords rows) {dateText : Bytes → Bytes}
    {tree removed : LogbookItems} (hitems : tree.items.Perm (rows.map (shownRecord dateText)))
    {next : Option ℕ} {data : Bytes} (hremove : tree.removeRecord next = some (removed, data)) :
    ∃ n < 2 ^ 63, data = decimal n ++ bytes "\n" ∧ removed.headerLabels = tree.headerLabels ∧
      removed.currentItem = next ∧ removed.items.length + 1 = tree.items.length ∧
      removed.items.Perm ((rows.filter fun row => LogBook.logbookTable.value row (bytes "id") !=
        some (decimal n)).map (shownRecord dateText)) := by
  simp only [removeRecord, Option.bind_eq_bind, Option.bind_eq_some_iff, Option.some.injEq,
    Prod.mk.injEq] at hremove
  obtain ⟨position, -, item, hitem, rfl, rfl⟩ := hremove
  obtain ⟨row, hrow, rfl⟩ := List.mem_map.mp (hitems.mem_iff.mp (List.mem_of_getElem? hitem))
  obtain ⟨n, hn, hvalue⟩ := h.ids row hrow
  have hid : shownRecord dateText row 0 = decimal n :=
    Option.some.inj ((h.shown_id hrow).symm.trans hvalue)
  obtain ⟨hlt, hget⟩ := List.getElem?_eq_some_iff.mp hitem
  refine ⟨n, hn, by rw [hid], rfl, rfl, List.length_eraseIdx_add_one hlt, ?_⟩
  have hinj {other : Row} (hother : other ∈ rows) (hsame : LogBook.logbookTable.value other
      (bytes "id") = some (decimal n)) : other = row :=
    List.inj_on_of_nodup_map h.distinct hother hrow (hsame.trans hvalue.symm)
  have hfilter : rows.filter (fun other => LogBook.logbookTable.value other (bytes "id") !=
      some (decimal n)) = rows.erase row := by
    rw [(h.distinct.of_map _).erase_eq_filter]
    refine List.filter_congr fun other hother => ?_
    rw [Bool.eq_iff_iff, bne_iff_ne, bne_iff_ne, not_iff_not]
    exact ⟨hinj hother, fun heq => heq ▸ hvalue⟩
  -- what is left beside the item and its record is the same
  have hleft : (shownRecord dateText row :: tree.items.eraseIdx position).Perm
      (shownRecord dateText row :: (rows.erase row).map (shownRecord dateText)) := by
    have htree := List.getElem_cons_eraseIdx_perm hlt
    rw [hget] at htree
    exact (htree.trans hitems).trans ((List.perm_cons_erase hrow).map _)
  rw [hfilter]
  exact hleft.cons_inv

end LogbookItems

/-! ## The client and the module -/

/-- The request of `ham_logbook_fetch`. -/
def hamLogbookFetch : HAMRequest := { method := bytes "GET", uri := bytes "/logbook" }

/-- The request of `ham_logbook_remove`. -/
def hamLogbookRemove (id : Bytes) : HAMRequest where
  method := bytes "POST"
  uri := bytes "/logbook/remove"
  content := some (cstr id)

/-- The client of a user beside the module. A reply on its way goes to the widget if it is that of a
fetch; a removal has no handler. -/
structure LogbookClient (δ : Type*) where
  tree : LogbookItems := {}
  waiting : List (Bool × HAMReply) := []
  book : LogBook := {}
  db : δ
  crashed : Bool := false

namespace LogbookClient
variable {δ : Type*} (backend : SQLite3 δ) (account : Account) (qt : Qt)

/-- A removal makes another item the current one; others send requests over their own sessions. -/
inductive Event where
  | select (item : Option ℕ)
  | fetch
  | remove (next : Option ℕ)
  | deliver
  | others (account : Account) (request : Request)

def logbookManager : ModuleManager (Unit × Account) (δ × LogBook) where
  modules := [LogBook.responder backend Unit]
  isAuthenticated session _ := session.2.authenticated

/-- A request is answered by the module, and its reply is on the way. -/
def send (client : LogbookClient δ) (toWidget : Bool) (request : HAMRequest) : LogbookClient δ :=
  match exchange (logbookManager backend) ((), account) (client.db, client.book) request with
  | none => { client with crashed := true }
  | some (reply, db, book) =>
    { client with db, book, waiting := client.waiting ++ [(toWidget, reply)] }

def remove (client : LogbookClient δ) (next : Option ℕ) : LogbookClient δ :=
  match client.tree.removeRecord next with
  | none => { client with crashed := true }
  | some (tree, id) => { client with tree }.send backend account false (hamLogbookRemove id)

/-- The first reply is given to its response handler. -/
def deliver (client : LogbookClient δ) : LogbookClient δ :=
  match client.waiting with
  | [] => client
  | (false, _) :: waiting => { client with waiting }
  | (true, reply) :: waiting =>
    match client.tree.fetchHandler qt (hamReplyGetContent reply) (reply.status != 200) with
    | none => { client with waiting, crashed := true }
    | some tree => { client with waiting, tree }

/-- The menu with the removal opens over an item, which is then the current one. -/
def system (start : δ) : System (LogbookClient δ) Event where
  start := { db := start }
  enabled client event :=
    !client.crashed &&
      match event with
      | .select item => item.all (· < client.tree.items.length)
      | .remove next =>
        client.tree.currentItem.isSome && next.all (· + 1 < client.tree.items.length)
      | .deliver => client.waiting ≠ []
      | _ => true
  step client event :=
    match event with
    | .select item => some { client with tree := { client.tree with currentItem := item } }
    | .fetch => some (client.send backend account true hamLogbookFetch)
    | .remove next => some (client.remove backend account next)
    | .deliver => some (client.deliver qt)
    | .others other request =>
      let handled := LogBook.handleRequest backend other request client.book client.db {}
      some { client with book := handled.2.1, db := handled.2.2.1 }

/-- The records of the user. -/
def records (client : LogbookClient δ) : List Row :=
  (backend.tableRows client.db LogBook.logbookTable).filter (LogBook.isOwn account)

/-- Selects and deletions are done, the records fit into the content buffer of the client, nothing
is removed while a fetch is on its way, since the fetch would show it again, and others do not reach
records that are not theirs. -/
def guard (client : LogbookClient δ) : Event → Bool
  | .fetch => (backend.select client.db (LogBook.fetchQuery account none)).1 &&
      (LogBook.header ++ (client.records backend account).flatMap LogBook.line).length ≤ 65534
  | .remove next => client.waiting.all (!·.1) &&
      (client.tree.removeRecord next).all fun removed =>
        LogBook.doneIds backend account (LogBook.readIds removed.2) client.book client.db ==
          LogBook.readIds removed.2
  | .others other request => other.authenticated && other.id < 2 ^ 63 && other.id ≠ account.id &&
      LogBook.Harmless request
  | _ => true

abbrev Run (start : δ) : List Event → LogbookClient δ → Prop :=
  System.Run (system backend account qt start) (guard backend account)

/-! ## Exchanges with the module -/

variable {backend account qt}

theorem send_eq {client : LogbookClient δ} {toWidget : Bool} {request : HAMRequest}
    {reply : HAMReply} {db : δ} {book : LogBook}
    (h : exchange (logbookManager backend) ((), account) (client.db, client.book) request =
      some (reply, db, book)) :
    client.send backend account toWidget request =
      { client with db, book, waiting := client.waiting ++ [(toWidget, reply)] } := by
  rw [send, h]

theorem answer_logbook (hauth : account.authenticated = true) {request : Request}
    (huri : cutUri request.uri = bytes "/logbook") {db : δ} {book : LogBook}
    {handled : LogBook × δ × Reply}
    (h : LogBook.handleRequest backend account request book db {} = (true, handled)) :
    (logbookManager backend).answer ((), account) (db, book) request =
      (handled.2.2, handled.2.1, handled.1) := by
  have hne : bytes "/logbook" ≠ bytes "/modules" := by decide
  have hcalled : (logbookManager backend).called ((), account) (db, book) request =
      some (LogBook.responder backend Unit) := by
    rw [ModuleManager.called, huri, if_neg hne, ModuleManager.find]
    simp [logbookManager, LogBook.responder, hauth]
  have hhandled : (LogBook.responder backend Unit).handleRequest ((), account) (db, book) request
      {} = (true, handled.2.2, handled.2.1, handled.1) := by
    simp only [LogBook.responder, h]
  rw [ModuleManager.answer, ModuleManager.handleRequest, huri, if_neg hne, hcalled]
  simp only [hhandled, if_true]

section
variable {tables : List Table} (hlaw : backend.Lawful tables) (ht : LogBook.logbookTable ∈ tables)
  (hid : account.id < 2 ^ 63)
include hlaw ht hid

/-- A select of a fetch that is done returns the records of the user. -/
theorem select_fetch {db : δ}
    (hdone : (backend.select db (LogBook.fetchQuery account none)).1 = true) :
    (backend.select db (LogBook.fetchQuery account none)).2 =
      (((backend.tableRows db LogBook.logbookTable).filter
        (LogBook.isOwn account)).map LogBook.recordTexts, db) := by
  obtain ⟨hdb, -, hrows⟩ := hlaw.select_rows ht db (LogBook.fetchQuery account none) rfl
    (fun name hname => by simp [LogBook.fetchQuery] at hname) (LogBook.filters_fetch account none)
  refine Prod.ext ((hrows hdone).trans ?_) hdb
  have hlisted (row : Row) : LogBook.isListed account none row = LogBook.isOwn account row := by
    simp [LogBook.isListed]
  rw [SQLite3.selected, List.map_map, List.filter_congr fun row _ =>
    (LogBook.satisfies_fetch hlaw hid (by simp) row).trans (hlisted row)]
  exact List.map_congr_left fun row _ => List.map_map

/-- A fetch carries the records of the user. -/
theorem exchange_fetch (hauth : account.authenticated = true) {client : LogbookClient δ}
    (hready : LogBook.Ready client.book) (hguard : guard backend account client .fetch = true) :
    ∃ r book, exchange (logbookManager backend) ((), account) (client.db, client.book)
        hamLogbookFetch = some (r, client.db, book) ∧ LogBook.Ready book ∧ r.status = 200 ∧
      hamReplyGetContent r = LogBook.sentLines (client.records backend account) := by
  rw [guard, Bool.and_eq_true, decide_eq_true_eq] at hguard
  have hselected := select_fetch hlaw ht hid hguard.1
  have huri : (received hamLogbookFetch).uri = LogBook.fetchUri none := rfl
  have hready' : LogBook.Ready (LogBook.handleRequest backend account (received hamLogbookFetch)
      client.book client.db {}).2.1 := LogBook.handleRequest_ready backend hready
  have hhandled : LogBook.handleRequest backend account (received hamLogbookFetch) client.book
      client.db {} = (true, { client.book with getLogsQuery := { table := bytes "logbook" } },
        client.db, ({} : Reply).setContent (LogBook.header ++
          (client.records backend account).flatMap LogBook.line)) := by
    rw [LogBook.handleRequest_fetch huri hready, hselected, LogBook.foldl_appendEntry]
    rfl
  rw [hhandled] at hready'
  have hanswer := answer_logbook hauth rfl hhandled
  have hsend : Sendable hamLogbookFetch := sendable_get (by decide) (by simp)
  have hzero : 0 ∉ LogBook.header ++ (client.records backend account).flatMap LogBook.line := by
    rw [List.mem_append, List.mem_flatMap]
    rintro (hmem | ⟨row, -, hmem⟩)
    · exact (LogBook.header_plain hmem).1 rfl
    · exact LogBook.zero_notMem_line row hmem
  have hsome : ∃ c ∈ LogBook.header ++ (client.records backend account).flatMap LogBook.line,
      c ≠ cr := by
    refine ⟨ch 'i', List.mem_append_left _ ?_, by decide⟩
    decide
  obtain ⟨r, hexchange, hstatus, hcontent⟩ := exchange_reply hsend hanswer
    (wellFormed_new.setContent _) (fitsClient_new.setContent hguard.2 hzero) (.inr hsome)
  exact ⟨r, _, hexchange, hready', hstatus, hcontent⟩

omit hlaw ht hid in
theorem readIds_line (n : ℕ) : LogBook.readIds (decimal n ++ bytes "\n") = [decimal n] := by
  have hplain : ∀ c ∈ decimal n, Tokens.isPlain c := LogBook.decimalInt_plain n
  have hstands : List.Forall₂ (List.Forall₂ Tokens.Stands) [[decimal n]] [[decimal n]] :=
    .cons (.cons (Tokens.stands_plain hplain) .nil) .nil
  have hscan := scan_tableText hstands (by simp) []
  have htext : tableText [[decimal n]] = decimal n ++ bytes "\n" := by
    simp [tableText, Tokens.joined, bytes, lf]
  rw [htext] at hscan
  rw [LogBook.readIds, parse_finished hscan]
  rfl

omit hlaw ht hid in
/-- The line of an id is sent as it is. -/
theorem removal_content (n : ℕ) : 0 ∉ decimal n ++ bytes "\n" ∧ cr ∉ decimal n ++ bytes "\n" ∧
    (hamLogbookRemove (decimal n ++ bytes "\n")).content = some (decimal n ++ bytes "\n") := by
  have hplain : ∀ c ∈ decimal n, Tokens.isPlain c := LogBook.decimalInt_plain n
  have hline : 0 ∉ bytes "\n" ∧ cr ∉ bytes "\n" := by decide
  have hzero : 0 ∉ decimal n ++ bytes "\n" := by
    rw [List.mem_append, not_or]
    exact ⟨fun hmem => (Tokens.isPlain_iff.mp (hplain 0 hmem)).1 rfl, hline.1⟩
  refine ⟨hzero, ?_, congrArg some (cstr_of_notMem hzero)⟩
  rw [List.mem_append, not_or]
  exact ⟨fun hmem => (Tokens.isPlain_iff.mp (hplain cr hmem)).2.2.2.2 rfl, hline.2⟩

omit hlaw ht hid in
theorem sendable_remove (n : ℕ) : Sendable (hamLogbookRemove (decimal n ++ bytes "\n")) := by
  have hmethod : bytes "POST" ≠ [] ∧ ∀ c ∈ bytes "POST", isToken c :=
    ⟨by decide, List.all_eq_true.mp (by decide)⟩
  have huri : ∀ c ∈ bytes "/logbook/remove", c ≠ ch ' ' ∧ isControl c = false := by decide
  obtain ⟨hzero, hcr, hcontent⟩ := removal_content n
  refine ⟨hmethod.1, hmethod.2, huri, by simp [hamLogbookRemove], by simp [hamLogbookRemove],
    ?_, ?_⟩
  · intro body hbody
    obtain rfl := Option.some.inj (hcontent.symm.trans hbody)
    exact List.append_ne_nil_of_right_ne_nil _ (by decide)
  · simpa only [hcontent, Option.mem_def, Option.some.injEq, forall_eq'] using And.intro hzero hcr

/-- A removal whose deletion is done takes the record with the id. -/
theorem exchange_remove (hauth : account.authenticated = true) {db : δ} {book : LogBook}
    (hready : LogBook.Ready book) {n : ℕ} (hn : n < 2 ^ 63)
    (hdone : LogBook.doneIds backend account (LogBook.readIds (decimal n ++ bytes "\n")) book db =
      LogBook.readIds (decimal n ++ bytes "\n")) :
    ∃ r db' book', exchange (logbookManager backend) ((), account) (db, book)
        (hamLogbookRemove (decimal n ++ bytes "\n")) = some (r, db', book') ∧
      LogBook.Ready book' ∧ backend.tableRows db' LogBook.logbookTable =
        (backend.tableRows db LogBook.logbookTable).filter fun row =>
          !(LogBook.isOwn account row &&
            LogBook.logbookTable.value row (bytes "id") == some (decimal n)) := by
  have hcontent : (received (hamLogbookRemove (decimal n ++ bytes "\n"))).content =
      decimal n ++ bytes "\n" := congrArg (Option.getD · []) (removal_content n).2.2
  have hrows := LogBook.removeRecords_rows hlaw ht hid [decimal n] hready db
  rw [readIds_line] at hdone
  have hhandled : LogBook.handleRequest backend account
      (received (hamLogbookRemove (decimal n ++ bytes "\n"))) book db {} =
        (true, (LogBook.removeRecords backend account [decimal n] book db).1,
          (LogBook.removeRecords backend account [decimal n] book db).2,
          ({} : Reply).setContent (bytes "Removed.")) := by
    rw [LogBook.handleRequest_remove rfl, LogBook.removeLog, hcontent, ← LogBook.readIds,
      readIds_line]
  have hfits : FitsClient (({} : Reply).setContent (bytes "Removed.")) :=
    fitsClient_new.setContent (by decide) (by decide)
  have hsome : ∃ c ∈ bytes "Removed.", c ≠ cr := by decide
  obtain ⟨r, hexchange, -⟩ := exchange_reply (sendable_remove n) (answer_logbook hauth rfl hhandled)
    (wellFormed_new.setContent _) hfits (.inr hsome)
  refine ⟨r, _, _, hexchange, LogBook.removeRecords_ready backend hready, hrows.trans ?_⟩
  refine List.filter_congr fun row _ => ?_
  have hhas : LogBook.hasIdOf backend [decimal n] row =
      (LogBook.logbookTable.value row (bytes "id") == some (decimal n)) := by
    rw [Bool.eq_iff_iff, beq_iff_eq, LogBook.hasIdOf, List.any_cons, List.any_nil, Bool.or_false,
      LogBook.hasId, cstr_decimal]
    exact hlaw.equals_integer _ _ hn
  rw [hdone, hhas]

end

/-! ## Runs -/

/-- A reply on its way to the widget carries the records that the user has. -/
def Carries (rows : List Row) (reply : HAMReply) : Prop :=
  reply.status = 200 ∧ ∃ sent : List Row, sent.Perm rows ∧
    hamReplyGetContent reply = LogBook.sentLines sent

/-- The tree shows the records, or no fetch has filled it yet. -/
def Mirrors (qt : Qt) (rows : List Row) (tree : LogbookItems) : Prop :=
  tree.headerLabels = [bytes "1"] ∧ tree.items = [] ∨
    tree.headerLabels = LogBook.headerColumns ∧
      tree.items.Perm (rows.map (LogbookItems.shownRecord qt.dateText))

/-- What holds between two events. -/
structure Kept (backend : SQLite3 δ) (account : Account) (qt : Qt)
    (client : LogbookClient δ) : Prop where
  alive : client.crashed = false
  ready : LogBook.Ready client.book
  plain : LogbookItems.PlainRecords (client.records backend account)
  current : ∀ position ∈ client.tree.currentItem, position < client.tree.items.length
  mirrors : Mirrors qt (client.records backend account) client.tree
  waiting : ∀ reply, (true, reply) ∈ client.waiting →
    Carries (client.records backend account) reply

theorem Kept.deliver {client : LogbookClient δ} (h : Kept backend account qt client) :
    Kept backend account qt (client.deliver qt) := by
  cases hwaiting : client.waiting with
  | nil =>
    rw [LogbookClient.deliver, hwaiting]
    exact h
  | cons waits waiting =>
    have hrest : ∀ reply, (true, reply) ∈ waiting →
        Carries (client.records backend account) reply := fun reply hreply =>
      h.waiting reply (hwaiting ▸ List.mem_cons_of_mem _ hreply)
    obtain ⟨toWidget, reply⟩ := waits
    cases toWidget with
    | false =>
      rw [LogbookClient.deliver, hwaiting]
      exact ⟨h.alive, h.ready, h.plain, h.current, h.mirrors, hrest⟩
    | true =>
      obtain ⟨hstatus, sent, hperm, hcontent⟩ := h.waiting reply (hwaiting ▸ List.mem_cons_self)
      have hlabels : client.tree.headerLabels.length ≤ LogBook.headerColumns.length := by
        rcases h.mirrors with ⟨hheader, -⟩ | ⟨hheader, -⟩
        · simp [hheader, LogBook.headerColumns]
        · rw [hheader]
      obtain ⟨filled, hfilled, hheader, hcurrent, hitems⟩ := LogbookItems.fetchHandler_sentLines
        (h.plain.subset hperm.subperm) hlabels qt
      have herror : (reply.status != 200) = false := by simp [hstatus]
      rw [LogbookClient.deliver, hwaiting]
      simp only [hcontent, herror, hfilled]
      exact ⟨h.alive, h.ready, h.plain, hcurrent,
        .inr ⟨hheader, hitems ▸ hperm.map _⟩, hrest⟩

section
variable {tables : List Table} (hlaw : backend.Lawful tables) (ht : LogBook.logbookTable ∈ tables)
  (hid : account.id < 2 ^ 63)
include hlaw ht

include hid in
theorem Kept.fetch (hauth : account.authenticated = true) {client : LogbookClient δ}
    (h : Kept backend account qt client)
    (hguard : guard backend account client .fetch = true) :
    Kept backend account qt (client.send backend account true hamLogbookFetch) := by
  obtain ⟨r, book, hexchange, hready, hstatus, hcontent⟩ :=
    exchange_fetch hlaw ht hid hauth h.ready hguard
  rw [send_eq hexchange]
  refine ⟨h.alive, hready, h.plain, h.current, h.mirrors, fun reply hreply => ?_⟩
  rcases List.mem_append.mp hreply with hreply | hreply
  · exact h.waiting reply hreply
  · obtain rfl : reply = r := by simpa using hreply
    exact ⟨hstatus, _, List.Perm.refl _, hcontent⟩

include hid in
theorem Kept.remove (hauth : account.authenticated = true) {client : LogbookClient δ}
    (h : Kept backend account qt client) {next : Option ℕ}
    (hnext : next.all (· + 1 < client.tree.items.length) = true)
    (hcurrent : client.tree.currentItem.isSome = true)
    (hguard : guard backend account client (.remove next) = true) :
    Kept backend account qt (client.remove backend account next) := by
  obtain ⟨position, hposition⟩ := Option.isSome_iff_exists.mp hcurrent
  have hlt := h.current position hposition
  obtain ⟨⟨tree, data⟩, hremove⟩ := LogbookItems.exists_removeRecord hposition hlt next
  obtain ⟨-, hmirror⟩ | ⟨hheader, hmirror⟩ := h.mirrors
  · simp [hmirror] at hlt
  obtain ⟨n, hn, rfl, hlabels, hnow, hlength, hitems⟩ :=
    LogbookItems.removeRecord_items h.plain hmirror hremove
  rw [guard, Bool.and_eq_true, hremove, Option.all_some, beq_iff_eq] at hguard
  obtain ⟨r, db, book, hexchange, hready, hrows⟩ :=
    exchange_remove hlaw ht hid hauth h.ready hn hguard.2
  have hclient : client.remove backend account next =
      { client with tree, db, book, waiting := client.waiting ++ [(false, r)] } := by
    rw [LogbookClient.remove, hremove]
    exact send_eq hexchange
  have hrecords : (client.remove backend account next).records backend account =
      (client.records backend account).filter fun row =>
        LogBook.logbookTable.value row (bytes "id") != some (decimal n) := by
    rw [hclient, records, hrows, records, List.filter_filter, List.filter_filter]
    refine List.filter_congr fun row _ => ?_
    cases LogBook.isOwn account row <;> simp [bne]
  rw [hclient] at hrecords ⊢
  refine ⟨h.alive, hready, ?_, ?_, .inr ⟨hlabels.trans hheader, ?_⟩, fun reply hreply => ?_⟩
  · rw [hrecords]
    exact h.plain.subset List.filter_sublist.subperm
  · intro other hother
    rw [hnow] at hother
    rw [Option.mem_def.mp hother, Option.all_some, decide_eq_true_eq, ← hlength] at hnext
    exact Nat.lt_of_succ_lt_succ hnext
  · rw [hrecords]
    exact hitems
  · have hmem := (List.mem_append.mp hreply).resolve_right (by simp)
    exact absurd (List.all_eq_true.mp hguard.1 _ hmem) (by simp)

theorem Kept.others {client : LogbookClient δ} (h : Kept backend account qt client)
    {other : Account} {request : Request}
    (hguard : guard backend account client (.others other request) = true) :
    let handled := LogBook.handleRequest backend other request client.book client.db {}
    Kept backend account qt { client with book := handled.2.1, db := handled.2.2.1 } := by
  simp only [guard, Bool.and_eq_true, decide_eq_true_eq] at hguard
  obtain ⟨⟨⟨hauth, hother⟩, hne⟩, hharmless⟩ := hguard
  have hrespects :=
    LogBook.handleRequest_respects hlaw ht hother hauth hharmless h.ready client.db {}
  have hperm : ((backend.tableRows (LogBook.handleRequest backend other request client.book
      client.db {}).2.2.1 LogBook.logbookTable).filter (LogBook.isOwn account)).Perm
        (client.records backend account) := by
    rcases hrespects.records with hsame | ⟨-, hisolated⟩
    · rw [hsame]
      exact List.Perm.refl _
    · exact Installed.recordsOf_perm hisolated (Ne.symm hne)
  refine ⟨h.alive, LogBook.handleRequest_ready backend h.ready, h.plain.subset hperm.subperm,
    h.current, ?_, fun reply hreply => ?_⟩
  · exact h.mirrors.imp_right fun ⟨hheader, hitems⟩ => ⟨hheader, hitems.trans (hperm.symm.map _)⟩
  · obtain ⟨hstatus, sent, hsent, hcontent⟩ := h.waiting reply hreply
    exact ⟨hstatus, sent, hsent.trans hperm.symm, hcontent⟩

include hid in
/-- For plain records, and in every run whose events meet the guard, nothing crashes, and once a
fetch has filled the tree it shows the records that the user has, whatever the other sessions that
the guard admits do in between. -/
theorem records_mirrored (hauth : account.authenticated = true) {start : δ}
    (hplain : LogbookItems.PlainRecords
      ((backend.tableRows start LogBook.logbookTable).filter (LogBook.isOwn account)))
    {events : List Event} {client : LogbookClient δ}
    (h : Run backend account qt start events client) :
    client.crashed = false ∧ Mirrors qt (client.records backend account) client.tree := by
  have hstart : Kept backend account qt { db := start } :=
    ⟨rfl, LogBook.ready_new, hplain, by simp, .inl ⟨rfl, rfl⟩, by simp⟩
  have hkept : Kept backend account qt client := by
    refine System.Run.invariant (I := fun _ client => Kept backend account qt client)
      hstart ?_ h
    intro past client event next hkept henabled hguard hstep
    simp only [system, Bool.and_eq_true, Bool.not_eq_true'] at henabled
    cases event with
    | select item =>
      cases hstep
      refine ⟨hkept.alive, hkept.ready, hkept.plain, fun position hposition => ?_, hkept.mirrors,
        hkept.waiting⟩
      have hitem : item.all (· < client.tree.items.length) = true := henabled.2
      obtain rfl : item = some position := hposition
      exact of_decide_eq_true hitem
    | fetch =>
      cases hstep
      exact hkept.fetch hlaw ht hid hauth hguard
    | remove position =>
      cases hstep
      obtain ⟨hcurrent, hnext⟩ := Bool.and_eq_true_iff.mp henabled.2
      exact hkept.remove hlaw ht hid hauth hnext hcurrent hguard
    | deliver =>
      cases hstep
      exact hkept.deliver
    | others other request =>
      cases hstep
      exact hkept.others hlaw ht hguard
  exact ⟨hkept.alive, hkept.mirrors⟩

end

/-- Dates as their numbers; labels behind the given ones stay. -/
def sampleQt : Qt where
  dateText := id
  setHeaderLabels headerLabels labels := labels ++ headerLabels.drop labels.length
  setHeaderLabels_covers h := by rw [List.drop_eq_nil_of_le h, List.append_nil]

/-- Another user adds a record while the records are on their way, and one is removed. -/
def sampleEvents : List Event :=
  [.fetch, .others ⟨true, 8, bytes "petr"⟩
      { uri := bytes "/logbook/add", content := bytes "id;callsign\n-1;OK1KVK\n" },
    .deliver, .select (some 0), .remove none]

theorem records_mirrored_sampleEvents : ∃ client, Run LogBook.sampleBackend LogBook.sampleAccount
    sampleQt LogBook.sampleDatabase sampleEvents client ∧ client.tree.items.map (· 4) = [bytes "OK1KVK"] ∧
      Mirrors sampleQt (client.records LogBook.sampleBackend LogBook.sampleAccount)
        client.tree := by
  have hrows : (LogBook.sampleBackend.tableRows LogBook.sampleDatabase
      LogBook.logbookTable).filter (LogBook.isOwn LogBook.sampleAccount) =
        LogBook.sampleRecords.eraseIdx 1 := by decide +kernel
  have hplain : LogbookItems.PlainRecords (LogBook.sampleRecords.eraseIdx 1) := by
    have htexts : ((LogBook.sampleRecords.eraseIdx 1).all fun row =>
        (LogBook.recordTexts row).all fun text => text.all Tokens.isPlain) = true := by
      decide +kernel
    refine ⟨fun row hrow text htext => ?_, ?_, by decide +kernel⟩
    · have hrowtexts := List.all_eq_true.mp htexts row hrow
      exact List.all_eq_true.mp (List.all_eq_true.mp hrowtexts text htext)
    · refine List.forall_mem_cons.mpr ⟨⟨1, by norm_num, by decide +kernel⟩, ?_⟩
      exact List.forall_mem_singleton.mpr ⟨3, by norm_num, by decide +kernel⟩
  have hexec : (System.exec (system LogBook.sampleBackend LogBook.sampleAccount sampleQt
      LogBook.sampleDatabase) (guard LogBook.sampleBackend LogBook.sampleAccount)
        { db := LogBook.sampleDatabase } sampleEvents).any (fun client =>
          client.tree.items.map (· 4) == [bytes "OK1KVK"]) = true := by decide +kernel
  obtain ⟨client, hrun, hitems⟩ := System.exists_run_of_exec hexec
  exact ⟨client, hrun, beq_iff_eq.mp hitems, (records_mirrored LogBook.sampleBackend_lawful
    (by decide) (by decide) rfl (hrows ▸ hplain) hrun).2⟩

end LogbookClient
end Hamlog.Ui
