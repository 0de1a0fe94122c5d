import Hamlog.Server.Responders.LogBookRoundTrip

/-! # The logbook widget

`LogbookTreeWidget` shows the records of a fetch as the items of a tree. An edit
of a cell sends the whole item as a request to add a record. The handler of the
reply is not told which item that was: it writes the id of the reply into the
current item.
-/
namespace Hamlog.Ui
open Foundation Wire Server

/-- The labels of the header, which are the first line of every fetch. -/
def headerLabels : List Bytes := LogBook.headerColumns

/-- `text` are the texts of the items, by their columns; an item that `QTreeWidget` points to is
known by a number. -/
structure LogbookTreeWidget where
  text : ℕ → ℕ → Bytes
  currentItem : Option ℕ := none
  askDXCC : Bool := false

namespace LogbookTreeWidget

/-- No column stands for the result `-1`. -/
def findColumnWithName (name : Bytes) : Option ℕ := headerLabels.idxOf? name

/-- The text of a column in a request. `toTime` prints a date as the number of seconds that
`toTime_t` makes of it. -/
def columnText (toTime : Bytes → ℕ) (text : ℕ → Bytes) (i : ℕ) : Bytes :=
  if i = 0 ∧ text 0 = [] then bytes "-1"
  else if i = 2 then decimal (toTime (text 2))
  else text i

/-- Behind each of the two lines the last `;` is erased. -/
def itemToCSV (toTime : Bytes → ℕ) (text : ℕ → Bytes) : Bytes :=
  let data := (headerLabels.flatMap (· ++ bytes ";")).dropLast ++ bytes "\n"
  let columns := (List.range headerLabels.length).map (columnText toTime text)
  (data ++ columns.flatMap (· ++ bytes ";")).dropLast ++ bytes "\n"

/-- The widget and the bodies of the requests to `/logbook/add` that are sent. -/
def handleItemChanged (toTime : Bytes → ℕ) (widget : LogbookTreeWidget) (item col : ℕ) :
    LogbookTreeWidget × List Bytes :=
  if col < 2 then (widget, [])
  else
    let data := itemToCSV toTime (widget.text item)
    ({ widget with askDXCC := widget.askDXCC || findColumnWithName (bytes "callsign") == some col },
      [cstr data])

/-- `setText` of an item, which emits `itemChanged` as Qt documents it. -/
def setText (toTime : Bytes → ℕ) (widget : LogbookTreeWidget) (item col : ℕ) (text : Bytes) :
    LogbookTreeWidget × List Bytes :=
  let columns := Function.update (widget.text item) col text
  handleItemChanged toTime { widget with text := Function.update widget.text item columns } item col

/-- The widget and the call sign whose data are asked for. -/
def tryAskDXCC (widget : LogbookTreeWidget) (item : ℕ) : LogbookTreeWidget × Option Bytes :=
  if widget.askDXCC then
    ({ widget with askDXCC := false },
      some (cstr ((findColumnWithName (bytes "callsign")).elim [] (widget.text item))))
  else (widget, none)

/-- The handler of `/logbook/add`: the widget, the bodies that are sent and the call sign that is
asked for. It crashes without a current item, and if the reply lacks one of the two fields. -/
def addHandler (toTime : Bytes → ℕ) (widget : LogbookTreeWidget) (response : Bytes)
    (error : Bool) : Option (LogbookTreeWidget × List Bytes × Option Bytes) :=
  if error then some (widget, [], none)
  else do
    let tokens := (QtLogBook.tokenize response).headD []
    let item ← widget.currentItem
    let id ← tokens[0]?
    let user ← tokens[1]?
    let first := setText toTime widget item 0 id
    let second := setText toTime first.1 item 1 user
    let asked := tryAskDXCC second.1 item
    some (asked.1, first.2 ++ second.2, asked.2)

variable {toTime : Bytes → ℕ} {widget after : LogbookTreeWidget}

/-! ## The request of an item -/

theorem headerLabels_eq : ∃ labels, headerLabels = bytes "id" :: bytes "user_id" :: labels ∧
    bytes "id" ∉ labels := ⟨LogBook.fetchColumns, rfl, LogBook.notMem_fetchColumns.1⟩

/-- The id that a request of an item names. -/
def sentId (text : ℕ → Bytes) : Bytes := if text 0 = [] then bytes "-1" else text 0

/-- The request is the header and one line that begins with the id. -/
theorem itemToCSV_eq (toTime : Bytes → ℕ) (text : ℕ → Bytes) :
    ∃ columns, itemToCSV toTime text = Tokens.joined headerLabels ++
        lf :: (sentId text ++ ch ';' :: (Tokens.joined columns ++ [lf])) ∧
      ∀ column ∈ columns, ∃ i < headerLabels.length, column = columnText toTime text i := by
  obtain ⟨labels, hlabels, -⟩ := headerLabels_eq
  have hrange : (List.range headerLabels.length).map (columnText toTime text) =
      sentId text :: (List.range' 1 (labels.length + 1)).map (columnText toTime text) := by
    rw [hlabels, List.length_cons, List.length_cons, List.range_eq_range', List.range'_succ,
      List.map_cons]
    simp [columnText, sentId]
  have hmem : ∀ column ∈ (List.range' 1 (labels.length + 1)).map (columnText toTime text),
      ∃ i < headerLabels.length, column = columnText toTime text i := by
    intro column hcolumn
    obtain ⟨i, hi, rfl⟩ := List.mem_map.mp hcolumn
    refine ⟨i, ?_, rfl⟩
    rw [hlabels, List.length_cons, List.length_cons]
    have hrange := List.mem_range'_1.mp hi
    omega
  refine ⟨_, ?_, hmem⟩
  have hlines : itemToCSV toTime text = Tokens.joined headerLabels ++ bytes "\n" ++
      Tokens.joined (sentId text :: (List.range' 1 (labels.length + 1)).map
        (columnText toTime text)) ++ bytes "\n" := by
    rw [itemToCSV, hrange, List.dropLast_append_of_ne_nil (by simp [bytes]),
      LogBook.dropLast_separated _ (by simp [hlabels]),
      LogBook.dropLast_separated _ (List.cons_ne_nil _ _)]
    rfl
  rw [hlines, List.range'_succ, List.map_cons, Tokens.joined_cons_cons]
  simp [bytes, lf]

/-! ## What the signals do -/

theorem handleItemChanged_text (item col : ℕ) :
    (handleItemChanged toTime widget item col).1.text = widget.text ∧
      (handleItemChanged toTime widget item col).1.currentItem = widget.currentItem := by
  unfold handleItemChanged
  split_ifs <;> exact ⟨rfl, rfl⟩

theorem tryAskDXCC_text (item : ℕ) :
    (tryAskDXCC widget item).1.text = widget.text ∧
      (tryAskDXCC widget item).1.currentItem = widget.currentItem := by
  unfold tryAskDXCC
  split_ifs <;> exact ⟨rfl, rfl⟩

/-- An accepted reply puts the id into the current item and sends nothing. -/
theorem addHandler_cases {response : Bytes} {sent : List Bytes} {asked : Option Bytes}
    (h : addHandler toTime widget response false = some (after, sent, asked)) :
    ∃ item id, widget.currentItem = some item ∧
      ((QtLogBook.tokenize response).headD [])[0]? = some id ∧ sent = [] ∧
      after.currentItem = widget.currentItem ∧
      ∀ other, after.text other 0 = if other = item then id else widget.text other 0 := by
  unfold addHandler at h
  simp only [Bool.false_eq_true, if_false, Option.bind_eq_bind, Option.bind_eq_some_iff,
    Option.some.injEq, Prod.mk.injEq] at h
  obtain ⟨item, hitem, id, hid, user, -, rfl, rfl, -⟩ := h
  refine ⟨item, id, hitem, hid, rfl, ?_, fun other => ?_⟩
  · rw [(tryAskDXCC_text _).2]
    rfl
  · rw [(tryAskDXCC_text _).1]
    simp only [setText, handleItemChanged, Nat.zero_lt_two, Nat.one_lt_two, if_true]
    by_cases hother : other = item
    · subst hother
      simp
    · simp [hother, Function.update]

end LogbookTreeWidget
end Hamlog.Ui
