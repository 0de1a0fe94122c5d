import Hamlog.Server.Responders.LogBookAtomicity
import Hamlog.Ui.LogbookTree

/-! # Whose record an item shows

The widget with its requests under way, the server that handles them, and the
replies that come back, both in the order of the requests. Nothing ties a reply
to the item it is about but the current item, so an item keeps the id of its own
record while every reply finds its item selected.
-/
namespace Hamlog.Ui
open Foundation Wire Server LogbookTreeWidget

variable {δ : Type*} (backend : SQLite3 δ) (account : Account) (toTime : Bytes → ℕ)

/-! ## What a request stores -/

/-- A record that the server stored: its id, and whether it is a new one. -/
structure Stored where
  id : Bytes
  isNew : Bool
  deriving DecidableEq

/-- The records that `addRecords` stores. -/
def storedRecords (columns : List Bytes) :
    List (List Bytes) → LogBook → δ → Reply → List Stored
  | [], _, _, _ => []
  | row :: rows, book, db, reply =>
    if row.isEmpty then storedRecords columns rows book db reply
    else if columns.length ≠ row.length then []
    else
      let id := (LogBook.withId (LogBook.fillRecord book.record columns row)).getD (bytes "id") []
      let added := LogBook.addRecord backend account columns row book db reply
      let stored : Stored :=
        if id = bytes "-1" then ⟨decimalInt (backend.lastInsertedID added.2.2.1), true⟩
        else ⟨id, false⟩
      if added.1 then stored :: storedRecords columns rows added.2.1 added.2.2.1 added.2.2.2 else []

/-- The records that a request to `/logbook/add` stores. -/
def storedOf (content : Bytes) (book : LogBook) (db : δ) : List Stored :=
  let data := LogBook.parse content
  storedRecords backend account (data.headD []) data.tail { book with record := ∅ } db {}

/-! ## The widget and the server -/

/-- A request under way, with the item that it is about. -/
structure Pending where
  item : ℕ
  body : Bytes

/-- A reply on its way back, with the item that its request was about. -/
structure Answer where
  item : ℕ
  error : Bool
  content : Bytes

/-- The id that a reply returns. -/
def Answer.id (answer : Answer) : Option Bytes :=
  ((QtLogBook.tokenize answer.content).headD [])[0]?

/-- Beside the program: all replies of the server, the ids that items were given, and the records
that the server stored for each item. -/
structure Client (δ : Type*) where
  widget : LogbookTreeWidget
  sent : List Pending := []
  answers : List Answer := []
  book : LogBook := {}
  db : δ
  answered : List Answer := []
  assigned : List (ℕ × Bytes) := []
  stored : List (ℕ × Stored) := []

/-- A cell is edited, an item or none gets selected, the server handles the oldest request, the
oldest reply arrives, or the server does something for others. -/
inductive Action (δ : Type*) where
  | edit (item col : ℕ) (text : Bytes)
  | select (item : Option ℕ)
  | serve
  | deliver
  | others (book : LogBook) (db : δ)

namespace Client

def edit (state : Client δ) (item col : ℕ) (text : Bytes) : Client δ :=
  let changed := setText toTime state.widget item col text
  { state with widget := changed.1, sent := state.sent ++ changed.2.map fun body => ⟨item, body⟩ }

def serve (state : Client δ) : Option (Client δ) :=
  match state.sent with
  | [] => none
  | pending :: sent =>
    let request : Request := { uri := bytes "/logbook/add", content := pending.body }
    let handled := LogBook.handleRequest backend account request state.book state.db {}
    let answer : Answer := ⟨pending.item, handled.2.2.2.status.code != 200,
      LogBook.sentContent handled.2.2.2⟩
    some { state with
      sent
      answers := state.answers ++ [answer]
      book := handled.2.1
      db := handled.2.2.1
      answered := state.answered ++ [answer]
      stored := state.stored ++
        (storedOf backend account pending.body state.book state.db).map fun s => (pending.item, s) }

/-- Requests of the handler would be about the current item. -/
def deliver (state : Client δ) : Option (Client δ) :=
  match state.answers with
  | [] => none
  | answer :: answers =>
    (addHandler toTime state.widget answer.content answer.error).map fun handled =>
      { state with
        widget := handled.1
        sent := state.sent ++ handled.2.1.map fun body => ⟨state.widget.currentItem.getD 0, body⟩
        answers
        assigned := state.assigned ++ if answer.error then [] else
          state.widget.currentItem.toList.map fun item => (item, handled.1.text item 0) }

end Client

/-- The columns of the ids are hidden, so their cells cannot be edited. -/
def system (start : LogbookTreeWidget) (db : δ) : System (Client δ) (Action δ) where
  start := { widget := start, db }
  enabled state
    | .edit _ col _ => 2 ≤ col && col < headerLabels.length
    | .serve => !state.sent.isEmpty
    | .deliver => !state.answers.isEmpty
    | .select _ | .others _ _ => true
  step state
    | .edit item col text => some (state.edit toTime item col text)
    | .select item => some { state with widget := { state.widget with currentItem := item } }
    | .serve => state.serve backend account
    | .deliver => state.deliver toTime
    | .others book db => some { state with book, db }

/-- An accepted reply finds the item of its request selected, and no text of an edited item holds a
line end. -/
def isCareful (state : Client δ) : Action δ → Bool
  | .edit item col text => (List.range headerLabels.length).all fun i =>
    ((setText toTime state.widget item col text).1.text item i).all fun c => c != lf && c != cr
  | .deliver => state.answers.head?.all fun answer =>
    answer.error || state.widget.currentItem == some answer.item
  | .select _ | .serve | .others _ _ => true

/-! ## Identity -/

/-- The record of this id was fetched for the item or created for it. -/
def Owns (start : LogbookTreeWidget) (stored : List (ℕ × Stored)) (item : ℕ) (id : Bytes) : Prop :=
  start.text item 0 = id ∧ id ≠ [] ∧ id ≠ bytes "-1" ∨ (item, ⟨id, true⟩) ∈ stored

/-- Items are only given ids that the server returned for requests about them, and no request about
an item changes a record of another item. -/
structure KeepsIdentity (start : LogbookTreeWidget) (state : Client δ) : Prop where
  assigned : ∀ pair ∈ state.assigned, ∃ answer ∈ state.answered,
    answer.item = pair.1 ∧ answer.error = false ∧ answer.id = some pair.2
  updated : ∀ pair ∈ state.stored, pair.2.isNew = false →
    ∀ other, Owns start state.stored other pair.2.id → other = pair.1

/-- SQLite gives no two records the same id. -/
structure UniqueKeys (start : LogbookTreeWidget) (stored : List (ℕ × Stored)) : Prop where
  fetched : ∀ item other, start.text item 0 = start.text other 0 → start.text item 0 ≠ [] →
    start.text item 0 ≠ bytes "-1" → item = other
  created : ((stored.filter fun pair => pair.2.isNew).map fun pair => pair.2.id).Nodup
  apart : ∀ pair ∈ stored, pair.2.isNew = true → ∀ item, start.text item 0 ≠ pair.2.id

theorem UniqueKeys.owner {start : LogbookTreeWidget} {stored : List (ℕ × Stored)}
    (h : UniqueKeys start stored) {item other : ℕ} {id : Bytes} (hitem : Owns start stored item id)
    (hother : Owns start stored other id) : other = item := by
  rcases hitem with ⟨hid, hne, hnew⟩ | hcreated
  · rcases hother with ⟨hid', -⟩ | hcreated'
    · exact h.fetched other item (hid'.trans hid.symm) (hid' ▸ hne) (hid' ▸ hnew)
    · exact absurd hid (h.apart _ hcreated' rfl item)
  · rcases hother with ⟨hid', -⟩ | hcreated'
    · exact absurd hid' (h.apart _ hcreated rfl other)
    · have hmem (item : ℕ) (hmem : (item, ⟨id, true⟩) ∈ stored) :
          (item, (⟨id, true⟩ : Stored)) ∈ stored.filter fun pair => pair.2.isNew :=
        List.mem_filter.mpr ⟨hmem, rfl⟩
      exact congrArg Prod.fst
        (List.inj_on_of_nodup_map h.created (hmem _ hcreated') (hmem _ hcreated) rfl)

/-! ## One request -/

section Server
variable {backend account toTime}

/-- A body of one record, which names this id. -/
def Carries (body id : Bytes) : Prop := ∃ row rest, LogBook.parse body = headerLabels :: row :: rest ∧
  row.head? = some id ∧ ∀ other ∈ rest, other = []

theorem zero_notMem_plain {text : Bytes} (h : ∀ c ∈ text, Tokens.isPlain c) : 0 ∉ text :=
  fun hzero => (Tokens.isPlain_iff.mp (h 0 hzero)).1 rfl

/-- What is sent for an item names the id of the item, if the texts hold no line ends. -/
theorem carries_itemToCSV {text : ℕ → Bytes} (hid : ∀ c ∈ sentId text, Tokens.isPlain c)
    (htext : ∀ i < headerLabels.length, ∀ c ∈ columnText toTime text i, c ≠ lf ∧ c ≠ cr) :
    Carries (cstr (itemToCSV toTime text)) (sentId text) := by
  obtain ⟨columns, hbody, hcolumns⟩ := itemToCSV_eq toTime text
  have hzero : (0 : Byte) ≠ lf ∧ (0 : Byte) ≠ ch ';' := by decide
  have hfront : 0 ∉ Tokens.joined headerLabels ++ lf :: (sentId text ++ [ch ';']) := by
    simp only [List.mem_append, List.mem_cons, List.not_mem_nil, or_false, hzero, false_or, not_or]
    refine ⟨fun hmem => ?_, zero_notMem_plain hid⟩
    rcases Tokens.mem_joined hmem with hmem | ⟨name, hname, hmem⟩
    · exact hzero.2 hmem
    · exact zero_notMem_plain (LogBook.headerColumns_plain name hname) hmem
  have hinside : ∀ c ∈ (cstr (Tokens.joined columns ++ [lf])).dropLast, c ≠ lf ∧ c ≠ cr := by
    intro c hc
    have hjoined : c ∈ Tokens.joined columns := by
      have hprefix : cstr (Tokens.joined columns ++ [lf]) <+: Tokens.joined columns ++ [lf] :=
        List.takeWhile_prefix _
      rcases List.prefix_concat_iff.mp hprefix with hall | hpart
      · rwa [hall, List.dropLast_concat] at hc
      · exact hpart.subset (List.mem_of_mem_dropLast hc)
    rcases Tokens.mem_joined hjoined with rfl | ⟨column, hcolumn, hmem⟩
    · decide
    · obtain ⟨i, hi, rfl⟩ := hcolumns column hcolumn
      exact htext i hi c hmem
  have hcstr : cstr (itemToCSV toTime text) = Tokens.joined headerLabels ++
      lf :: (sentId text ++ ch ';' :: cstr (Tokens.joined columns ++ [lf])) := by
    have hsplit := cstr_append hfront (Tokens.joined columns ++ [lf])
    simpa [hbody] using hsplit
  obtain ⟨row, hrow, hall⟩ := Tokens.scan_one_line
    (t := { rows := [headerLabels], row := [sentId text] }) false hinside
  have hlabels : List.Forall₂ Tokens.Stands headerLabels headerLabels :=
    LogBook.stands_self LogBook.headerColumns_plain
  have hparse : LogBook.parse (cstr (itemToCSV toTime text)) = (Tokens.scan false
      { rows := [headerLabels], row := [sentId text] } (cstr (Tokens.joined columns ++ [lf]))).all := by
    rw [LogBook.parse, hcstr, Tokens.scan_line hlabels (by decide +kernel) rfl rfl,
      Tokens.scan_plain rfl hid, Tokens.scan_semicolon rfl]
    rfl
  have hhead : row.head? = some (sentId text) := by
    obtain ⟨more, rfl⟩ := hrow
    rfl
  rcases hall with hall | hall
  · exact ⟨row, [], by rw [hparse, hall]; rfl, hhead, by simp⟩
  · exact ⟨row, [[]], by rw [hparse, hall]; rfl, hhead, by simp⟩

theorem getElem?_fillRecord_of_notMem {columns : List Bytes} {name : Bytes} (h : name ∉ columns)
    (row : List Bytes) (record : StringMap) :
    (LogBook.fillRecord record columns row)[name]? = record[name]? := by
  unfold LogBook.fillRecord
  induction columns generalizing row record with
  | nil => simp
  | cons column columns ih =>
    rw [List.mem_cons, not_or] at h
    cases row with
    | nil => simp
    | cons cell row =>
      rw [List.zip_cons_cons, List.foldl_cons, ih h.2, StringMap.getElem?_insert,
        if_neg (Ne.symm h.1)]

/-- The id of a record is what stands in the first column. -/
theorem idOf_row {row : List Bytes} {id : Bytes} (h : row.head? = some id) :
    (LogBook.withId (LogBook.fillRecord ∅ headerLabels row)).getD (bytes "id") [] = id := by
  obtain ⟨cells, rfl⟩ := List.head?_eq_some_iff.mp h
  obtain ⟨labels, hlabels, hnot⟩ := headerLabels_eq
  have hrest : bytes "id" ∉ bytes "user_id" :: labels := by
    rw [List.mem_cons, not_or]
    exact ⟨by decide, hnot⟩
  have hfill := getElem?_fillRecord_of_notMem hrest cells
    (Std.TreeMap.insert (∅ : StringMap) (bytes "id") id)
  rw [LogBook.getD_withId, hlabels]
  change ((LogBook.fillRecord (Std.TreeMap.insert ∅ (bytes "id") id)
    (bytes "user_id" :: labels) cells)[bytes "id"]?).getD [] = id
  rw [hfill, StringMap.getElem?_insert, if_pos rfl]
  rfl

variable (backend account) in
theorem addRecords_empty (columns : List Bytes) {rows : List (List Bytes)}
    (h : ∀ row ∈ rows, row = []) (book : LogBook) (db : δ) (reply : Reply) :
    LogBook.addRecords backend account columns rows book db reply = (book, db, reply) ∧
      storedRecords backend account columns rows book db reply = [] := by
  induction rows with
  | nil => exact ⟨rfl, rfl⟩
  | cons row rows ih =>
    obtain rfl := h row List.mem_cons_self
    exact ih fun other hother => h other (List.mem_cons_of_mem _ hother)

variable (backend account) in
/-- A record that names an id is refused, or it is stored and its id is returned. -/
theorem addRecord_line {row : List Bytes} {id : Bytes} (h : row.head? = some id)
    (hid : ∀ c ∈ id, Tokens.isPlain c) (book : LogBook) (hbook : book.record = ∅) (db : δ) :
    let added := LogBook.addRecord backend account headerLabels row book db {}
    (added.1 = false ∧ added.2.2.2.status = .badRequest) ∨
      added.1 = true ∧ added.2.2.2.status = .ok ∧ ∃ new : Bytes, (∀ c ∈ new, Tokens.isPlain c) ∧
        added.2.2.2.content = new ++ bytes ";" ++ decimal account.id ∧
        (id = bytes "-1" → new = decimalInt (backend.lastInsertedID added.2.2.1)) ∧
        (id ≠ bytes "-1" → new = id) := by
  have hname := idOf_row h
  rw [← hbook] at hname
  unfold LogBook.addRecord
  simp only [hname]
  by_cases hnew : id = bytes "-1"
  · simp only [if_pos hnew]
    cases (backend.insert db book.addLogQuery
        (((LogBook.withId (LogBook.fillRecord book.record headerLabels row)).erase
          (bytes "id")).insert (bytes "user_id") (decimal account.id))).1 with
    | false => exact Or.inl ⟨rfl, rfl⟩
    | true => exact Or.inr ⟨rfl, rfl, _, LogBook.decimalInt_plain _, rfl, fun _ => rfl,
        fun hne => absurd hnew hne⟩
  · simp only [if_neg hnew]
    cases (backend.update db
        ((book.addLogQuery.where_ (bytes "user_id") (decimal account.id)).where_ (bytes "id") id)
        (((LogBook.withId (LogBook.fillRecord book.record headerLabels row)).erase
          (bytes "user_id")).erase (bytes "id"))).1 with
    | false => exact Or.inl ⟨rfl, rfl⟩
    | true => exact Or.inr ⟨rfl, rfl, id, hid, rfl, fun heq => absurd heq hnew, fun _ => rfl⟩

variable (backend account) in
/-- A request of one record is refused, or it stores this record and returns its id. -/
theorem addLog_line {content id : Bytes} (h : Carries content id)
    (hid : ∀ c ∈ id, Tokens.isPlain c) (request : Request) (hcontent : request.content = content)
    (book : LogBook) (db : δ) :
    let added := LogBook.addLog backend account request book db {}
    (added.2.2.status = .badRequest ∧ storedOf backend account content book db = []) ∨
      added.2.2.status = .ok ∧ ∃ new : Bytes, (∀ c ∈ new, Tokens.isPlain c) ∧
        added.2.2.content = new ++ bytes ";" ++ decimal account.id ∧
        storedOf backend account content book db = [⟨new, decide (id = bytes "-1")⟩] ∧
        (id ≠ bytes "-1" → new = id) := by
  obtain ⟨row, rest, hparse, hhead, hrest⟩ := h
  have hrow : row.isEmpty = false := by
    cases row with
    | nil => simp at hhead
    | cons cell cells => rfl
  have hname := idOf_row hhead
  have hend := addRecords_empty backend account headerLabels hrest
  have hadded := addRecord_line backend account hhead hid { book with record := ∅ } rfl db
  simp only [LogBook.addLog, storedOf, hcontent, hparse, List.headD_cons, List.tail_cons,
    LogBook.addRecords, storedRecords, hrow, Bool.false_eq_true, if_false, hname]
  by_cases hwidth : headerLabels.length = row.length
  · simp only [hwidth, ne_eq, not_true_eq_false, if_false]
    rcases hadded with ⟨hdone, hstatus⟩ | ⟨hdone, hstatus, new, hplain, htext, hcreated, hsame⟩
    · simp only [hdone, Bool.false_eq_true, if_false]
      exact Or.inl ⟨hstatus, trivial⟩
    · simp only [hdone, if_true, hend]
      refine Or.inr ⟨hstatus, new, hplain, htext, ?_, hsame⟩
      by_cases hnew : id = bytes "-1"
      · simp [hnew, hcreated hnew]
      · simp [hnew, hsame hnew]
  · simp only [ne_eq, hwidth, not_false_eq_true, if_true]
    exact Or.inl ⟨rfl, trivial⟩

/-- The id that the client reads in the reply. -/
theorem answer_id {reply : Reply} {new : Bytes} (hnew : ∀ c ∈ new, Tokens.isPlain c) (n : ℕ)
    (h : reply.content = new ++ bytes ";" ++ decimal n) (item : ℕ) (error : Bool) :
    Answer.id ⟨item, error, LogBook.sentContent reply⟩ = some new := by
  have hdecimal : ∀ c ∈ decimal n, Tokens.isPlain c := LogBook.decimalInt_plain n
  have hsent : LogBook.sentContent reply = new ++ ch ';' :: decimal n := by
    have hsemi : ch ';' ≠ cr := by decide
    have hcr {text : Bytes} (htext : ∀ c ∈ text, Tokens.isPlain c) :
        text.filter (fun c => decide (c ≠ cr)) = text := List.filter_eq_self.mpr fun c hc =>
      decide_eq_true (Tokens.isPlain_iff.mp (htext c hc)).2.2.2.2
    rw [LogBook.sentContent, Reply.toString]
    simp only [h, Tokens.bytes_semicolon, List.append_assoc, List.filter_append,
      List.singleton_append, List.filter_cons, hcr hnew, hcr hdecimal]
    simp [hsemi]
  have hscan : Tokens.scan false {} (new ++ ch ';' :: decimal n) =
      { row := [new], field := decimal n } := by
    have hplain := Tokens.scan_plain (t := { row := [new] }) rfl hdecimal []
    rw [List.append_nil] at hplain
    rw [Tokens.scan_plain rfl hnew, Tokens.scan_semicolon rfl]
    exact hplain
  have hne : (decimal n).isEmpty = false := by simpa using decimal_ne_nil n
  rw [Answer.id, hsent, QtLogBook.tokenize, hscan]
  simp [hne, Tokens.endField, Tokens.all]

end Server

/-! ## The invariant -/

/-- The text of an id column: no record yet, or the record of the item. -/
def HasId (start : LogbookTreeWidget) (stored : List (ℕ × Stored)) (item : ℕ) (id : Bytes) : Prop :=
  (∀ c ∈ id, Tokens.isPlain c) ∧ (id = [] ∨ id = bytes "-1" ∨ Owns start stored item id)

structure Tracked (start : LogbookTreeWidget) (state : Client δ) : Prop where
  ids : ∀ item, HasId start state.stored item (state.widget.text item 0)
  sent : ∀ pending ∈ state.sent, ∃ id, HasId start state.stored pending.item id ∧ id ≠ [] ∧
    Carries pending.body id
  answers : ∀ answer ∈ state.answers, answer ∈ state.answered ∧ (answer.error = false →
    ∃ id, HasId start state.stored answer.item id ∧ answer.id = some id)
  assigned : ∀ pair ∈ state.assigned, ∃ answer ∈ state.answered,
    answer.item = pair.1 ∧ answer.error = false ∧ answer.id = some pair.2
  updated : ∀ pair ∈ state.stored, pair.2.isNew = false →
    Owns start state.stored pair.1 pair.2.id

section Invariant
variable {backend account toTime} {start : LogbookTreeWidget} {state after : Client δ}

theorem Owns.mono {stored stored' : List (ℕ × Stored)} (hsub : stored ⊆ stored') {item : ℕ}
    {id : Bytes} (h : Owns start stored item id) : Owns start stored' item id :=
  h.imp_right fun hmem => hsub hmem

theorem HasId.mono {stored stored' : List (ℕ × Stored)} (hsub : stored ⊆ stored') {item : ℕ}
    {id : Bytes} (h : HasId start stored item id) : HasId start stored' item id :=
  ⟨h.1, h.2.imp_right (Or.imp_right (Owns.mono hsub))⟩

theorem HasId.sentId {stored : List (ℕ × Stored)} {item : ℕ} {text : ℕ → Bytes}
    (h : HasId start stored item (text 0)) :
    HasId start stored item (sentId text) ∧ LogbookTreeWidget.sentId text ≠ [] := by
  unfold LogbookTreeWidget.sentId
  split_ifs with hempty
  · exact ⟨⟨by decide, Or.inr (Or.inl rfl)⟩, by decide⟩
  · exact ⟨h, hempty⟩

/-- An edited item sends its own id. -/
theorem Tracked.edit (h : Tracked start state) {item col : ℕ} (hcol : 2 ≤ col) {text : Bytes}
    (hcareful : isCareful toTime state (.edit item col text) = true) :
    Tracked start (state.edit toTime item col text) := by
  have hchanged : setText toTime state.widget item col text =
      ((setText toTime state.widget item col text).1,
        [cstr (itemToCSV toTime ((setText toTime state.widget item col text).1.text item))]) := by
    simp [setText, handleItemChanged, Nat.not_lt.mpr hcol]
  have hids : ∀ other, (setText toTime state.widget item col text).1.text other 0 =
      state.widget.text other 0 := by
    intro other
    have hzero : (0 : ℕ) ≠ col := by omega
    rw [setText, (handleItemChanged_text _ _).1]
    by_cases hother : other = item
    · simp [hother, hzero]
    · simp [hother]
  have hitem := (hids item).symm ▸ h.ids item
  refine ⟨fun other => (hids other).symm ▸ h.ids other, fun pending hpending => ?_, h.answers,
    h.assigned, h.updated⟩
  rw [Client.edit, hchanged] at hpending
  rcases List.mem_append.mp hpending with hpending | hpending
  · exact h.sent pending hpending
  · obtain rfl := List.mem_singleton.mp hpending
    refine ⟨_, (HasId.sentId hitem).1, (HasId.sentId hitem).2,
      carries_itemToCSV (HasId.sentId hitem).1.1 fun i hi c hc => ?_⟩
    have hdigit : ∀ n, ∀ c ∈ decimalInt n, c ≠ lf ∧ c ≠ cr := fun n c hc =>
      (Tokens.isPlain_iff.mp (LogBook.decimalInt_plain n c hc)).2.2.2
    have hnew : ∀ c ∈ bytes "-1", c ≠ lf ∧ c ≠ cr := by decide
    unfold columnText at hc
    split_ifs at hc
    · exact hnew c hc
    · exact hdigit (toTime _) c hc
    · simpa using List.all_eq_true.mp (List.all_eq_true.mp hcareful i (List.mem_range.mpr hi)) c hc

/-- A new record gets an item that owns it, and a record that is changed was owned by the item. -/
theorem Tracked.serve (h : Tracked start state) (hstep : state.serve backend account = some after) :
    Tracked start after := by
  unfold Client.serve at hstep
  cases hsent : state.sent with
  | nil => simp [hsent] at hstep
  | cons pending sent =>
    simp only [hsent, Option.some.injEq] at hstep
    subst hstep
    obtain ⟨id, ⟨hplain, hid⟩, hne, hcarries⟩ := h.sent pending (by simp [hsent])
    have hhandled : LogBook.handleRequest backend account
        { uri := bytes "/logbook/add", content := pending.body } state.book state.db {} =
        (true, LogBook.addLog backend account
          { uri := bytes "/logbook/add", content := pending.body } state.book state.db {}) :=
      LogBook.handleRequest_add rfl
    have hadded := addLog_line backend account hcarries hplain
      { uri := bytes "/logbook/add", content := pending.body } rfl state.book state.db
    rw [hhandled]
    dsimp only
    have hkeep : state.stored ⊆ state.stored ++
        (storedOf backend account pending.body state.book state.db).map fun s => (pending.item, s) :=
      List.subset_append_left _ _
    refine ⟨fun item => (h.ids item).mono hkeep, fun other hother => ?_, fun answer hanswer => ?_,
      fun pair hpair => ?_, fun pair hpair hold => ?_⟩
    · obtain ⟨id, hid, hother⟩ := h.sent other (by simp [hsent, hother])
      exact ⟨id, hid.mono hkeep, hother⟩
    · rcases List.mem_append.mp hanswer with hanswer | hanswer
      · obtain ⟨hmem, hreturned⟩ := h.answers answer hanswer
        refine ⟨List.mem_append_left _ hmem, fun herror => ?_⟩
        obtain ⟨id, hid, hreads⟩ := hreturned herror
        exact ⟨id, hid.mono hkeep, hreads⟩
      · refine ⟨List.mem_append_right _ hanswer, fun herror => ?_⟩
        obtain rfl := List.mem_singleton.mp hanswer
        rcases hadded with ⟨hstatus, -⟩ | ⟨-, new, hnew, hcontent, hstored, hsame⟩
        · simp [hstatus, Status.code] at herror
        · refine ⟨new, ⟨hnew, ?_⟩, answer_id hnew _ hcontent _ _⟩
          rw [hstored]
          by_cases hcreated : id = bytes "-1"
          · exact Or.inr (Or.inr (Or.inr (by simp [hcreated])))
          · rw [hsame hcreated]
            exact hid.imp_right (Or.imp_right (Owns.mono (List.subset_append_left _ _)))
    · obtain ⟨answer, hmem, hanswer⟩ := h.assigned pair hpair
      exact ⟨answer, List.mem_append_left _ hmem, hanswer⟩
    · rcases List.mem_append.mp hpair with hpair | hpair
      · exact (h.updated pair hpair hold).mono hkeep
      · rcases hadded with ⟨-, hstored⟩ | ⟨-, new, hnew, -, hstored, hsame⟩
        · simp [hstored] at hpair
        · rw [hstored] at hpair ⊢
          obtain rfl := List.mem_singleton.mp hpair
          have hcreated : id ≠ bytes "-1" := by simpa using hold
          rw [hsame hcreated]
          exact ((hid.resolve_left hne).resolve_left hcreated).mono (List.subset_append_left _ _)

/-- A reply that finds its item selected gives the item an id of its own. -/
theorem Tracked.deliver (h : Tracked start state) (hcareful : isCareful toTime state .deliver = true)
    (hstep : state.deliver toTime = some after) : Tracked start after := by
  unfold Client.deliver at hstep
  cases hanswers : state.answers with
  | nil => simp [hanswers] at hstep
  | cons answer answers =>
    simp only [hanswers, Option.map_eq_some_iff] at hstep
    obtain ⟨⟨widget, bodies, asked⟩, hhandled, rfl⟩ := hstep
    obtain ⟨hmem, hreturned⟩ := h.answers answer (by simp [hanswers])
    have hrest : ∀ other ∈ answers, other ∈ state.answers := fun other hother => by
      simp [hanswers, hother]
    cases herror : answer.error with
    | true =>
      simp only [herror, addHandler, if_true, Option.some.injEq, Prod.mk.injEq] at hhandled
      obtain ⟨rfl, rfl, -⟩ := hhandled
      simp only [List.map_nil, List.append_nil, if_true]
      exact ⟨h.ids, h.sent, fun other hother => h.answers other (hrest other hother), h.assigned,
        h.updated⟩
    | false =>
      rw [herror] at hhandled
      obtain ⟨item, id, hcurrent, hid, rfl, -, htext⟩ := addHandler_cases hhandled
      have hitem : item = answer.item := by
        simpa [isCareful, hanswers, herror, hcurrent] using hcareful
      obtain ⟨new, hnew, hreads⟩ := hreturned herror
      obtain rfl : new = id := Option.some.inj (hreads.symm.trans hid)
      simp only [List.map_nil, List.append_nil, Bool.false_eq_true, if_false, hcurrent,
        Option.toList_some, List.map_cons]
      have hids : ∀ other, HasId start state.stored other (widget.text other 0) := by
        intro other
        rw [htext]
        split_ifs with hother
        · rw [hother, hitem]
          exact hnew
        · exact h.ids other
      refine ⟨hids, h.sent, fun other hother => h.answers other (hrest other hother),
        fun pair hpair => ?_, h.updated⟩
      rcases List.mem_append.mp hpair with hpair | hpair
      · exact h.assigned pair hpair
      · obtain rfl := List.mem_singleton.mp hpair
        refine ⟨answer, hmem, hitem.symm, herror, ?_⟩
        rw [htext, if_pos rfl]
        exact hreads

/-- In every run in which each accepted reply finds its item selected and no edited item holds a
line end, items are only given ids returned for them, and no item changes another one's record. -/
theorem record_identity {db : δ}
    (hstart : ∀ item, ∀ c ∈ start.text item 0, Tokens.isPlain c) {past : List (Action δ)}
    (h : System.Run (system backend account toTime start db) (isCareful toTime) past state)
    (hkeys : UniqueKeys start state.stored) : KeepsIdentity start state := by
  have htracked : Tracked start state := by
    refine System.Run.invariant (I := fun _ state => Tracked start state) ?_ ?_ h
    · refine ⟨fun item => ⟨hstart item, ?_⟩, by simp [system], by simp [system], by simp [system],
        by simp [system]⟩
      by_cases hempty : start.text item 0 = []
      · exact Or.inl hempty
      · by_cases hnew : start.text item 0 = bytes "-1"
        · exact Or.inr (Or.inl hnew)
        · exact Or.inr (Or.inr (Or.inl ⟨rfl, hempty, hnew⟩))
    · intro past state action next htracked henabled hcareful hstep
      cases action with
      | edit item col text =>
        cases hstep
        have hcol : 2 ≤ col := by
          simp only [system, Bool.and_eq_true, decide_eq_true_eq] at henabled
          exact henabled.1
        exact htracked.edit hcol hcareful
      | select item =>
        cases hstep
        exact ⟨htracked.ids, htracked.sent, htracked.answers, htracked.assigned, htracked.updated⟩
      | serve => exact htracked.serve hstep
      | deliver => exact htracked.deliver hcareful hstep
      | others book db =>
        cases hstep
        exact ⟨htracked.ids, htracked.sent, htracked.answers, htracked.assigned, htracked.updated⟩
  exact ⟨htracked.assigned, fun pair hpair hold other hother =>
    hkeys.owner (htracked.updated pair hpair hold) hother⟩

end Invariant

/-! ## Two runs -/

/-- The items of a fetch. -/
def sampleWidget : LogbookTreeWidget where
  text item col :=
    (((LogBook.sampleRecords.filter (LogBook.isOwn LogBook.sampleAccount)).map
      LogBook.recordTexts)[item]?.getD [])[col]?.getD []
  currentItem := some 0

theorem sampleWidget_id (item : ℕ) : sampleWidget.text item 0 =
    if item = 0 then bytes "1" else if item = 1 then bytes "3" else [] := by
  match item with
  | 0 => decide +kernel
  | 1 => decide +kernel
  | item + 2 =>
    have hlength : (LogBook.sampleRecords.filter
        (LogBook.isOwn LogBook.sampleAccount)).length ≤ item + 2 := by
      have htwo : (LogBook.sampleRecords.filter
          (LogBook.isOwn LogBook.sampleAccount)).length = 2 := by decide +kernel
      omega
    simp [sampleWidget, List.getElem?_eq_none hlength]

/-- The place of the first item is edited, and then the frequency of the second. -/
def editEvents (selected : ℕ) : List (Action SampleEngine.Database) :=
  [.edit 0 7 (bytes "Praha"), .select (some selected), .serve, .deliver, .select (some 1),
    .edit 1 5 (bytes "21.0"), .serve]

def sampleSystem : System (Client SampleEngine.Database) (Action SampleEngine.Database) :=
  system LogBook.sampleBackend LogBook.sampleAccount (fun _ => 2 ^ 32 - 1) sampleWidget
    LogBook.sampleDatabase

/-- The records of the sample have ids of their own while no record is new. -/
theorem sample_uniqueKeys {stored : List (ℕ × Stored)}
    (h : stored.all (fun pair => !pair.2.isNew) = true) : UniqueKeys sampleWidget stored := by
  have hold : ∀ pair ∈ stored, pair.2.isNew = false := by simpa using h
  have hne : bytes "1" ≠ bytes "3" := by decide
  refine ⟨fun item other hsame hid _ => ?_, ?_, fun pair hpair hnew => ?_⟩
  · simp only [sampleWidget_id] at hsame hid
    split_ifs at hsame hid <;> simp_all
  · rw [List.filter_eq_nil_iff.mpr fun pair hpair => by simp [hold pair hpair]]
    exact List.nodup_nil
  · exact absurd (hold pair hpair) (by simp [hnew])

/-- Each item stays selected until its reply is there. -/
theorem record_identity_sample : ∃ state,
    System.Run sampleSystem (isCareful fun _ => 2 ^ 32 - 1) (editEvents 0) state ∧
      KeepsIdentity sampleWidget state := by
  have hexec : (System.exec sampleSystem (isCareful fun _ => 2 ^ 32 - 1) sampleSystem.start
      (editEvents 0)).any (fun state => state.stored.all fun pair => !pair.2.isNew) = true := by
    decide +kernel
  obtain ⟨state, hrun, hold⟩ := System.exists_run_of_exec hexec
  refine ⟨state, hrun, record_identity (fun item c hc => ?_) hrun (sample_uniqueKeys hold)⟩
  have hplain : (∀ c ∈ bytes "1", Tokens.isPlain c) ∧ ∀ c ∈ bytes "3", Tokens.isPlain c := by decide
  rw [sampleWidget_id] at hc
  split_ifs at hc
  · exact hplain.1 c hc
  · exact hplain.2 c hc
  · simp at hc

/-- The second item gets selected before the reply to the edit of the first one: it takes over the
id, and its own edit changes the record of the first item. -/
theorem not_keepsIdentity : ∃ state, System.Run sampleSystem (fun _ _ => true) (editEvents 1) state ∧
    UniqueKeys sampleWidget state.stored ∧ ¬ KeepsIdentity sampleWidget state := by
  have hexec : (System.exec sampleSystem (fun _ _ => true) sampleSystem.start (editEvents 1)).any
      (fun state => decide (state.stored = [(0, ⟨bytes "1", false⟩), (1, ⟨bytes "1", false⟩)])) =
        true := by
    decide +kernel
  obtain ⟨state, hrun, hstored⟩ := System.exists_run_of_exec hexec
  rw [decide_eq_true_eq] at hstored
  refine ⟨state, hrun, sample_uniqueKeys (by simp [hstored]), fun h => ?_⟩
  have hfirst : Owns sampleWidget state.stored 0 (bytes "1") :=
    Or.inl ⟨by simp [sampleWidget_id], by decide, by decide⟩
  exact absurd (h.updated (1, ⟨bytes "1", false⟩) (by simp [hstored]) rfl 0 hfirst) (by simp)

end Hamlog.Ui
