import Hamlog.Library.HashTableMap

/-! # The signal registry of the client library

A hash table leads from the names of the signals to their lists of handlers.
The table is made by the first registration of a signal, and all other
functions need it. The loop of `ham_signals_unregister_handler` does not move
on from the first item of a list.
-/
namespace Hamlog.Library
open Foundation

variable {η υ κ : Type*} [DecidableEq η] [DecidableEq υ]

/-- `pair`, with the address of its allocation. -/
structure HandlerPair (η υ : Type*) where
  address : ℕ
  handler : η
  uiData : υ

/-- The static table and the lists behind its pointers, which are numbered, and the number of pairs
that were allocated so far. -/
structure Signals (η υ : Type*) where
  signals : Option (HAMHashTable ℕ) := none
  lists : List (List (HandlerPair η υ)) := []
  allocated : ℕ := 0

/-- A call of a handler, with data that is not NULL. -/
structure HandlerCall (η υ κ : Type*) where
  handler : η
  connection : κ
  data : Bytes
  error : ℤ
  uiData : υ

def hamSignalsRegisterSignal (registry : Signals η υ) (signalName : Bytes) : Signals η υ :=
  let table := registry.signals.getD {}
  if hamHashTableLookup table signalName (-1) = none then
    { registry with
      signals := some (hamHashTableAdd table signalName (-1) registry.lists.length)
      lists := registry.lists ++ [[]] }
  else { registry with signals := some table }

/-- The lookup that the other functions start with: the pointer to the handlers, if the table is
there to be looked into. -/
def lookupHandlers (registry : Signals η υ) (signalName : Bytes) : Option (Option ℕ) :=
  registry.signals.map fun table => hamHashTableLookup table signalName (-1)

/-- The loop of `ham_signals_emit_signal`. -/
def callHandlers (connection : κ) (data : Bytes) (error : ℤ) :
    List (HandlerPair η υ) → List (HandlerCall η υ κ)
  | [] => []
  | item :: rest =>
    ⟨item.handler, connection, data, error, item.uiData⟩ :: callHandlers connection data error rest

def hamSignalsEmitSignal (registry : Signals η υ) (signalName : Bytes) (connection : κ)
    (data : Bytes) (error : ℤ) : Option (List (HandlerCall η υ κ)) :=
  (lookupHandlers registry signalName).map fun
    | none => []
    | some list => callHandlers connection data error (registry.lists.getD list [])

def hamSignalsRegisterHandler (registry : Signals η υ) (signalName : Bytes) (handler : η)
    (uiData : υ) : Option (Signals η υ) :=
  (lookupHandlers registry signalName).map fun
    | none => registry
    | some list =>
      { registry with
        lists := registry.lists.modify list (· ++ [⟨registry.allocated, handler, uiData⟩])
        allocated := registry.allocated + 1 }

/-- `ham_list_remove`: the first item with the pointer is taken out. -/
def hamListRemove (address : ℕ) : List (HandlerPair η υ) → List (HandlerPair η υ)
  | [] => []
  | item :: rest => if item.address = address then rest else item :: hamListRemove address rest

/-- The loop of `ham_signals_unregister_handler`, with fuel for its turns: the pair that is found,
if there is one. A turn does not change `item`. -/
def findHandler (handler : η) (uiData : υ) : ℕ → List (HandlerPair η υ) →
    Option (Option (HandlerPair η υ))
  | 0, _ => none
  | _ + 1, [] => some none
  | fuel + 1, item :: rest =>
    if item.handler = handler ∧ item.uiData = uiData then some (some item)
    else findHandler handler uiData fuel (item :: rest)

def hamSignalsUnregisterHandler (fuel : ℕ) (registry : Signals η υ) (signalName : Bytes)
    (handler : η) (uiData : υ) : Option (Signals η υ) :=
  match lookupHandlers registry signalName with
  | none => none
  | some none => some registry
  | some (some list) =>
    (findHandler handler uiData fuel (registry.lists.getD list [])).map fun
      | none => registry
      | some pair =>
        { registry with lists := registry.lists.modify list (hamListRemove pair.address) }

/-- A call of the API. -/
inductive SignalCall (η υ κ : Type*) where
  | registerSignal (signalName : Bytes)
  | registerHandler (signalName : Bytes) (handler : η) (uiData : υ)
  | unregisterHandler (signalName : Bytes) (handler : η) (uiData : υ)
  | emitSignal (signalName : Bytes) (connection : κ) (data : Bytes) (error : ℤ)

/-- What a call leads to: the registry and the calls of handlers. Nothing comes of it without the
table, or when the fuel runs out. -/
def signalStep (fuel : ℕ) (registry : Signals η υ) :
    SignalCall η υ κ → Option (Signals η υ × List (HandlerCall η υ κ))
  | .registerSignal name => some (hamSignalsRegisterSignal registry name, [])
  | .registerHandler name handler uiData =>
    (hamSignalsRegisterHandler registry name handler uiData).map (·, [])
  | .unregisterHandler name handler uiData =>
    (hamSignalsUnregisterHandler fuel registry name handler uiData).map (·, [])
  | .emitSignal name connection data error =>
    (hamSignalsEmitSignal registry name connection data error).map (registry, ·)

/-- The call returns. -/
def Returns (registry : Signals η υ) (call : SignalCall η υ κ) (next : Signals η υ)
    (calls : List (HandlerCall η υ κ)) : Prop :=
  ∃ fuel, signalStep fuel registry call = some (next, calls)

/-- The registry behind calls that have all returned. -/
inductive Reached : List (SignalCall η υ κ) → Signals η υ → Prop where
  | start : Reached [] {}
  | next {past : List (SignalCall η υ κ)} {registry next : Signals η υ}
      {call : SignalCall η υ κ} {calls : List (HandlerCall η υ κ)} (h : Reached past registry)
      (hreturns : Returns registry call next calls) : Reached (past ++ [call]) next

/-! ## What the registry is for -/

/-- The handlers that are registered for the signals there are. -/
abbrev Registered (η υ : Type*) := Bytes → Option (List (η × υ))

/-- A call's effect on what is registered. -/
def Registered.after (registered : Registered η υ) : SignalCall η υ κ → Registered η υ
  | .registerSignal name =>
    Function.update registered (cstr name) (some ((registered (cstr name)).getD []))
  | .registerHandler name handler uiData =>
    Function.update registered (cstr name)
      ((registered (cstr name)).map (· ++ [(handler, uiData)]))
  | .unregisterHandler name handler uiData =>
    Function.update registered (cstr name)
      ((registered (cstr name)).map fun handlers => handlers.erase (handler, uiData))
  | .emitSignal _ _ _ _ => registered

/-- The handlers that a call has to call. -/
def Registered.called (registered : Registered η υ) :
    SignalCall η υ κ → List (HandlerCall η υ κ)
  | .emitSignal name connection data error =>
    ((registered (cstr name)).getD []).map fun handler =>
      ⟨handler.1, connection, data, error, handler.2⟩
  | _ => []

/-- What is registered behind a sequence of calls. -/
def registeredAfter (past : List (SignalCall η υ κ)) : Registered η υ :=
  past.foldl Registered.after fun _ => none

/-- What a pair registers. -/
def HandlerPair.entry (pair : HandlerPair η υ) : η × υ := (pair.handler, pair.uiData)

/-- What the table and its lists say. -/
def Signals.registered (registry : Signals η υ) : Registered η υ := fun name =>
  (lookupHandlers registry name).join.map fun list =>
    (registry.lists.getD list []).map HandlerPair.entry

/-- The call returns, has called the handlers that are registered, and has changed what is
registered as it should. -/
def Meets (registry : Signals η υ) (past : List (SignalCall η υ κ)) (call : SignalCall η υ κ) :
    Prop :=
  ∃ next calls, Returns registry call next calls ∧
    calls = (registeredAfter past).called call ∧
    ∀ name, next.registered name = registeredAfter (past ++ [call]) (cstr name)

/-- A signal was registered before, and a handler that is unregistered is the first one of its
signal, or there is none. -/
def FirstOnly (past : List (SignalCall η υ κ)) : SignalCall η υ κ → Prop
  | .registerSignal _ => True
  | .registerHandler _ _ _ => ∃ name, .registerSignal name ∈ past
  | .unregisterHandler name handler uiData => (∃ name, .registerSignal name ∈ past) ∧
    ∀ first rest, registeredAfter past (cstr name) = some (first :: rest) →
      first = (handler, uiData)
  | .emitSignal _ _ _ _ => ∃ name, .registerSignal name ∈ past

/-! ## The lists -/

omit [DecidableEq η] [DecidableEq υ] in
theorem callHandlers_eq (connection : κ) (data : Bytes) (error : ℤ)
    (items : List (HandlerPair η υ)) :
    callHandlers connection data error items = (items.map HandlerPair.entry).map fun handler =>
      ⟨handler.1, connection, data, error, handler.2⟩ := by
  induction items with
  | nil => rfl
  | cons item rest ih => rw [callHandlers, ih, List.map_cons, List.map_cons, HandlerPair.entry]

theorem findHandler_of_ne {handler : η} {uiData : υ} {item : HandlerPair η υ}
    (h : item.entry ≠ (handler, uiData)) (fuel : ℕ) (rest : List (HandlerPair η υ)) :
    findHandler handler uiData fuel (item :: rest) = none := by
  have hne : ¬ (item.handler = handler ∧ item.uiData = uiData) := fun hboth =>
    h (Prod.ext hboth.1 hboth.2)
  induction fuel with
  | zero => rfl
  | succ fuel ih => rw [findHandler, if_neg hne, ih]

/-- The loop only ends at an empty list or at a first item that matches. -/
theorem findHandler_some {handler : η} {uiData : υ} {fuel : ℕ} {items : List (HandlerPair η υ)}
    {found : Option (HandlerPair η υ)}
    (h : findHandler handler uiData fuel items = some found) :
    (items = [] ∧ found = none) ∨
      ∃ pair rest, items = pair :: rest ∧ pair.entry = (handler, uiData) ∧ found = some pair := by
  cases fuel with
  | zero => cases h
  | succ fuel =>
    cases items with
    | nil => exact Or.inl ⟨rfl, (Option.some.inj h).symm⟩
    | cons item rest =>
      by_cases hmatch : item.entry = (handler, uiData)
      · obtain ⟨hhandler, hdata⟩ := Prod.mk.inj hmatch
        rw [findHandler, if_pos ⟨hhandler, hdata⟩] at h
        exact Or.inr ⟨item, rest, rfl, hmatch, (Option.some.inj h).symm⟩
      · rw [findHandler_of_ne hmatch] at h
        cases h

/-! ## The registry behind calls that return -/

/-- The table leads from different names to different lists, which hold what is registered. -/
structure Consistent (past : List (SignalCall η υ κ)) (registry : Signals η υ) : Prop where
  made : registry.signals.isSome ↔ ∃ name, .registerSignal name ∈ past
  lt_length : ∀ name list, (lookupHandlers registry name).join = some list →
    list < registry.lists.length
  injective : ∀ name other list, (lookupHandlers registry name).join = some list →
    (lookupHandlers registry other).join = some list → cstr other = cstr name
  registered : ∀ name, registry.registered name = registeredAfter past (cstr name)

theorem hamHashTableLookup_cstr {table : HAMHashTable ℕ} {name other : Bytes}
    (h : cstr other = cstr name) :
    hamHashTableLookup table other (-1) = hamHashTableLookup table name (-1) := by
  have hhash : hamHashTableDoHash other (-1) = hamHashTableDoHash name (-1) := by
    rw [← hamHashTableDoHash_cstr other, h, hamHashTableDoHash_cstr]
  rw [hamHashTableLookup_eq, hamHashTableLookup_eq, h, hhash]

theorem consistent_start : Consistent ([] : List (SignalCall η υ κ)) {} where
  made := by simp
  lt_length _ _ h := by simp [lookupHandlers] at h
  injective _ _ _ h := by simp [lookupHandlers] at h
  registered _ := rfl

theorem registeredAfter_append (past : List (SignalCall η υ κ)) (call : SignalCall η υ κ) :
    registeredAfter (past ++ [call]) = (registeredAfter past).after call := by
  rw [registeredAfter, List.foldl_append]
  rfl

omit [DecidableEq η] [DecidableEq υ] in
theorem lookupHandlers_join (registry : Signals η υ) (name : Bytes) :
    (lookupHandlers registry name).join =
      hamHashTableLookup (registry.signals.getD {}) name (-1) := by
  cases h : registry.signals with
  | none => simp [lookupHandlers, h, hamHashTableLookup, findItem]
  | some table => simp [lookupHandlers, h]

theorem Consistent.registerSignal {past : List (SignalCall η υ κ)} {registry : Signals η υ}
    (h : Consistent past registry) (name : Bytes) :
    Consistent (past ++ [.registerSignal name]) (hamSignalsRegisterSignal registry name) := by
  have hmade : ∃ other, SignalCall.registerSignal other ∈ past ++ [.registerSignal name] :=
    ⟨name, by simp⟩
  have hregistered := h.registered
  have hlt := h.lt_length
  have hinjective := h.injective
  simp only [Signals.registered, lookupHandlers_join] at hregistered hlt hinjective
  unfold hamSignalsRegisterSignal
  dsimp only
  split_ifs with hlookup
  · have hself (other : Bytes) (hother : cstr other = cstr name) :
        hamHashTableLookup (hamHashTableAdd (registry.signals.getD {}) name (-1)
          registry.lists.length) other (-1) = some registry.lists.length := by
      rw [hamHashTableLookup_cstr hother]
      refine lookup_add_self _ name _ fun hhead => ?_
      rw [hamHashTableLookup_eq, Option.map_eq_none_iff, KeyedList.find, List.find?_eq_none]
        at hlookup
      obtain ⟨item, hitem, hkey⟩ := Option.map_eq_some_iff.mp hhead
      exact hlookup item (List.mem_of_head? hitem) (by simpa using hkey)
    refine ⟨iff_of_true rfl hmade, fun other list hlist => ?_, fun one other list hone hother => ?_,
      fun other => ?_⟩
    · rw [lookupHandlers_join, Option.getD_some] at hlist
      rw [List.length_append, List.length_singleton]
      by_cases hsame : cstr other = cstr name
      · rw [hself other hsame, Option.some.injEq] at hlist
        omega
      · rw [lookup_add_other _ _ hsame] at hlist
        exact Nat.lt_succ_of_lt (hlt other list hlist)
    · rw [lookupHandlers_join, Option.getD_some] at hone hother
      by_cases hsame : cstr one = cstr name <;> by_cases hsame' : cstr other = cstr name
      · rw [hsame, hsame']
      · rw [hself one hsame, Option.some.injEq] at hone
        rw [lookup_add_other _ _ hsame'] at hother
        exact absurd (hlt other list hother) (by omega)
      · rw [hself other hsame', Option.some.injEq] at hother
        rw [lookup_add_other _ _ hsame] at hone
        exact absurd (hlt one list hone) (by omega)
      · rw [lookup_add_other _ _ hsame] at hone
        rw [lookup_add_other _ _ hsame'] at hother
        exact hinjective one other list hone hother
    · have hnone := hregistered name
      rw [hlookup, Option.map_none] at hnone
      rw [Signals.registered, lookupHandlers_join, Option.getD_some, registeredAfter_append,
        Registered.after, ← hnone]
      by_cases hsame : cstr other = cstr name
      · rw [hself other hsame, hsame, Function.update_self]
        simp
      · rw [lookup_add_other _ _ hsame, Function.update_of_ne hsame, ← hregistered]
        refine Option.map_congr fun list hlist => ?_
        rw [List.getD_eq_getElem?_getD, List.getD_eq_getElem?_getD,
          List.getElem?_append_left (hlt other list hlist)]
  · refine ⟨iff_of_true rfl hmade, fun other list hlist => ?_, fun one other list hone hother => ?_,
      fun other => ?_⟩
    · rw [lookupHandlers_join] at hlist
      exact hlt other list hlist
    · rw [lookupHandlers_join] at hone hother
      exact hinjective one other list hone hother
    · obtain ⟨list, hlist⟩ := Option.ne_none_iff_exists'.mp hlookup
      have hold := hregistered name
      rw [hlist, Option.map_some] at hold
      rw [Signals.registered, lookupHandlers_join, Option.getD_some, registeredAfter_append,
        Registered.after, ← hold, Option.getD_some, hold, Function.update_eq_self]
      exact hregistered other

/-- A call that changes neither the registry nor what is registered. -/
theorem Consistent.same {past : List (SignalCall η υ κ)} {registry : Signals η υ}
    (h : Consistent past registry) {call : SignalCall η υ κ}
    (hcall : ∀ name, .registerSignal name ≠ call)
    (hafter : (registeredAfter past).after call = registeredAfter past) :
    Consistent (past ++ [call]) registry where
  made := by simpa [hcall] using h.made
  lt_length := h.lt_length
  injective := h.injective
  registered name := by rw [registeredAfter_append, hafter, h.registered]

/-- A call that changes the list of one signal as it changes what is registered for it. -/
theorem Consistent.modify {past : List (SignalCall η υ κ)} {registry : Signals η υ}
    (h : Consistent past registry) {call : SignalCall η υ κ}
    (hcall : ∀ name, .registerSignal name ≠ call) {name : Bytes} {list : ℕ}
    (hlist : (lookupHandlers registry name).join = some list) (allocated : ℕ)
    {f : List (HandlerPair η υ) → List (HandlerPair η υ)} {g : List (η × υ) → List (η × υ)}
    (hafter : (registeredAfter past).after call = Function.update (registeredAfter past)
      (cstr name) ((registeredAfter past (cstr name)).map g))
    (hf : (f (registry.lists.getD list [])).map HandlerPair.entry =
      g ((registry.lists.getD list []).map HandlerPair.entry)) :
    Consistent (past ++ [call])
      { registry with lists := registry.lists.modify list f, allocated := allocated } where
  made := by simpa [hcall] using h.made
  lt_length other list' hlist' := by
    rw [List.length_modify]
    exact h.lt_length other list' hlist'
  injective := h.injective
  registered other := by
    have hlt := h.lt_length name list hlist
    have hold := h.registered other
    have hname := h.registered name
    rw [registeredAfter_append, hafter]
    simp only [Signals.registered, lookupHandlers_join] at hold hname hlist ⊢
    by_cases hsame : cstr other = cstr name
    · rw [hamHashTableLookup_cstr hsame, hlist, hsame, Function.update_self, ← hname, hlist]
      rw [Option.map_some, Option.map_some, Option.map_some, ← hf, List.getD_eq_getElem?_getD,
        List.getD_eq_getElem?_getD, List.getElem?_modify_eq, List.getElem?_eq_getElem hlt]
      rfl
    · rw [Function.update_of_ne hsame, ← hold]
      refine Option.map_congr fun list' hlist' => ?_
      have hne : list ≠ list' := by
        rintro rfl
        exact hsame (h.injective name other list (by rwa [lookupHandlers_join])
          (by rwa [lookupHandlers_join]))
      rw [List.getD_eq_getElem?_getD, List.getD_eq_getElem?_getD, List.getElem?_modify_ne _ _ hne]

omit [DecidableEq η] [DecidableEq υ] in
theorem lookupHandlers_cases (registry : Signals η υ) (name : Bytes) :
    lookupHandlers registry name = none ∧ registry.signals = none ∨
      lookupHandlers registry name = some (lookupHandlers registry name).join ∧
        registry.signals.isSome := by
  cases h : registry.signals <;> simp [lookupHandlers, h]

theorem Consistent.registered_join {past : List (SignalCall η υ κ)} {registry : Signals η υ}
    (h : Consistent past registry) (name : Bytes) :
    (lookupHandlers registry name).join.map (fun list =>
      (registry.lists.getD list []).map HandlerPair.entry) = registeredAfter past (cstr name) :=
  h.registered name

omit [DecidableEq η] [DecidableEq υ] in
/-- Nothing is changed for a signal that there is not. -/
theorem Registered.update_none {registered : Registered η υ} {name : Bytes}
    (h : registered name = none) (g : List (η × υ) → List (η × υ)) :
    Function.update registered name ((registered name).map g) = registered := by
  rw [h, Option.map_none, ← h, Function.update_eq_self]

theorem Consistent.registerHandler {past : List (SignalCall η υ κ)}
    {registry next : Signals η υ} (h : Consistent past registry) {name : Bytes} {handler : η}
    {uiData : υ} (hnext : hamSignalsRegisterHandler registry name handler uiData = some next) :
    Consistent (past ++ [.registerHandler name handler uiData]) next := by
  have hname := h.registered_join name
  unfold hamSignalsRegisterHandler at hnext
  rcases lookupHandlers_cases registry name with ⟨hnone, -⟩ | ⟨hsome, -⟩
  · simp [hnone] at hnext
  cases hlist : (lookupHandlers registry name).join with
  | none =>
    rw [hsome, hlist] at hnext
    obtain rfl := Option.some.inj hnext
    rw [hlist] at hname
    exact h.same (by simp) (Registered.update_none hname.symm _)
  | some list =>
    rw [hsome, hlist] at hnext
    obtain rfl := Option.some.inj hnext
    refine h.modify (by simp) hlist _ rfl ?_
    rw [List.map_append, List.map_singleton, HandlerPair.entry]

theorem Consistent.unregisterHandler {past : List (SignalCall η υ κ)}
    {registry next : Signals η υ} (h : Consistent past registry) {fuel : ℕ} {name : Bytes}
    {handler : η} {uiData : υ}
    (hnext : hamSignalsUnregisterHandler fuel registry name handler uiData = some next) :
    Consistent (past ++ [.unregisterHandler name handler uiData]) next := by
  have hname := h.registered_join name
  unfold hamSignalsUnregisterHandler at hnext
  rcases lookupHandlers_cases registry name with ⟨hnone, -⟩ | ⟨hsome, -⟩
  · simp [hnone] at hnext
  cases hlist : (lookupHandlers registry name).join with
  | none =>
    rw [hsome, hlist] at hnext
    obtain rfl := Option.some.inj hnext
    rw [hlist] at hname
    exact h.same (by simp) (Registered.update_none hname.symm _)
  | some list =>
    rw [hsome, hlist] at hnext
    rw [hlist, Option.map_some] at hname
    cases hfind : findHandler handler uiData fuel (registry.lists.getD list []) with
    | none => simp only [hfind, Option.map_none, reduceCtorEq] at hnext
    | some found =>
      simp only [hfind, Option.map_some] at hnext
      rcases findHandler_some hfind with ⟨hnil, rfl⟩ | ⟨pair, rest, hitems, hentry, rfl⟩
      · obtain rfl := Option.some.inj hnext
        refine h.same (by simp) ?_
        rw [Registered.after, ← hname, hnil]
        exact Function.update_eq_iff.mpr ⟨by rw [← hname, hnil]; rfl, fun _ _ => rfl⟩
      · obtain rfl := Option.some.inj hnext
        refine h.modify (by simp) hlist _ rfl ?_
        rw [hitems, hamListRemove, if_pos rfl, List.map_cons, hentry, List.erase_cons_head]

theorem Consistent.emitSignal {past : List (SignalCall η υ κ)} {registry : Signals η υ}
    (h : Consistent past registry) {name : Bytes} {connection : κ} {data : Bytes} {error : ℤ}
    {calls : List (HandlerCall η υ κ)}
    (hcalls : hamSignalsEmitSignal registry name connection data error = some calls) :
    calls = (registeredAfter past).called (.emitSignal name connection data error) := by
  unfold hamSignalsEmitSignal at hcalls
  rcases lookupHandlers_cases registry name with ⟨hnone, -⟩ | ⟨hsome, -⟩
  · simp [hnone] at hcalls
  rw [hsome] at hcalls
  rw [Registered.called, ← h.registered_join name]
  cases hlist : (lookupHandlers registry name).join with
  | none =>
    rw [hlist] at hcalls
    exact (Option.some.inj hcalls).symm
  | some list =>
    rw [hlist] at hcalls
    exact (Option.some.inj hcalls).symm.trans (callHandlers_eq connection data error _)

/-- A call that returns has called the registered handlers and keeps the registry consistent. -/
theorem Consistent.returns {past : List (SignalCall η υ κ)} {registry next : Signals η υ}
    (h : Consistent past registry) {call : SignalCall η υ κ} {calls : List (HandlerCall η υ κ)}
    (hreturns : Returns registry call next calls) :
    Consistent (past ++ [call]) next ∧ calls = (registeredAfter past).called call := by
  obtain ⟨fuel, hstep⟩ := hreturns
  cases call with
  | registerSignal name =>
    obtain ⟨rfl, rfl⟩ := Prod.mk.inj (Option.some.inj hstep)
    exact ⟨h.registerSignal name, rfl⟩
  | registerHandler name handler uiData =>
    obtain ⟨_, hnext, hpair⟩ := Option.map_eq_some_iff.mp hstep
    obtain ⟨rfl, rfl⟩ := Prod.mk.inj hpair
    exact ⟨h.registerHandler hnext, rfl⟩
  | unregisterHandler name handler uiData =>
    obtain ⟨_, hnext, hpair⟩ := Option.map_eq_some_iff.mp hstep
    obtain ⟨rfl, rfl⟩ := Prod.mk.inj hpair
    exact ⟨h.unregisterHandler hnext, rfl⟩
  | emitSignal name connection data error =>
    obtain ⟨_, hcalls, hpair⟩ := Option.map_eq_some_iff.mp hstep
    obtain ⟨rfl, rfl⟩ := Prod.mk.inj hpair
    exact ⟨h.same (by simp) rfl, h.emitSignal hcalls⟩

theorem Reached.consistent {past : List (SignalCall η υ κ)} {registry : Signals η υ}
    (h : Reached past registry) : Consistent past registry := by
  induction h with
  | start => exact consistent_start
  | next _ hreturns ih => exact (ih.returns hreturns).1

/-! ## Which calls return -/

theorem Consistent.unregisterHandler_isSome {past : List (SignalCall η υ κ)}
    {registry : Signals η υ} (h : Consistent past registry) (name : Bytes) (handler : η)
    (uiData : υ) :
    (∃ fuel next, hamSignalsUnregisterHandler fuel registry name handler uiData = some next) ↔
      registry.signals.isSome ∧ ∀ first rest,
        registeredAfter past (cstr name) = some (first :: rest) → first = (handler, uiData) := by
  have hname := h.registered_join name
  unfold hamSignalsUnregisterHandler
  rcases lookupHandlers_cases registry name with ⟨hnone, htable⟩ | ⟨hsome, htable⟩
  · simp [hnone, htable]
  rw [hsome, ← hname]
  simp only [htable, true_and]
  cases (lookupHandlers registry name).join with
  | none => simp
  | some list =>
    simp only [Option.map_some, Option.some.injEq]
    cases hitems : registry.lists.getD list [] with
    | nil => exact iff_of_true ⟨1, _, rfl⟩ (by simp)
    | cons item rest =>
      rw [List.map_cons]
      constructor
      · rintro ⟨fuel, next, hnext⟩ first _ hfirst
        obtain ⟨rfl, -⟩ := List.cons.inj hfirst
        by_contra hne
        rw [findHandler_of_ne hne] at hnext
        cases hnext
      · intro hfirst
        obtain ⟨hhandler, hdata⟩ := Prod.mk.inj (hfirst _ _ rfl)
        have hfound : findHandler handler uiData 1 (item :: rest) = some (some item) := by
          rw [findHandler, if_pos ⟨hhandler, hdata⟩]
        exact ⟨1, Option.isSome_iff_exists.mp (by rw [hfound]; rfl)⟩

/-- The calls that return. -/
theorem Consistent.returns_iff {past : List (SignalCall η υ κ)} {registry : Signals η υ}
    (h : Consistent past registry) (call : SignalCall η υ κ) :
    (∃ next calls, Returns registry call next calls) ↔ FirstOnly past call := by
  cases call with
  | registerSignal name => exact iff_of_true ⟨_, _, 0, rfl⟩ trivial
  | registerHandler name handler uiData =>
    rw [FirstOnly, ← h.made]
    cases htable : registry.signals <;>
      simp [Returns, signalStep, hamSignalsRegisterHandler, lookupHandlers, htable]
  | unregisterHandler name handler uiData =>
    rw [FirstOnly, ← h.made, ← h.unregisterHandler_isSome]
    constructor
    · rintro ⟨next, _, fuel, hstep⟩
      obtain ⟨_, hnext, -⟩ := Option.map_eq_some_iff.mp hstep
      exact ⟨fuel, _, hnext⟩
    · rintro ⟨fuel, next, hnext⟩
      exact ⟨next, [], fuel, by rw [signalStep, hnext, Option.map_some]⟩
  | emitSignal name connection data error =>
    rw [FirstOnly, ← h.made]
    cases htable : registry.signals <;>
      simp [Returns, signalStep, hamSignalsEmitSignal, lookupHandlers, htable]

/-- Behind any calls that have returned, a call does what it should if and only if some signal was
registered before and an unregistered handler is the first one of its signal. -/
theorem meets_iff {past : List (SignalCall η υ κ)} {registry : Signals η υ}
    (h : Reached past registry) (call : SignalCall η υ κ) :
    Meets registry past call ↔ FirstOnly past call := by
  rw [← h.consistent.returns_iff call]
  constructor
  · rintro ⟨next, calls, hreturns, -⟩
    exact ⟨next, calls, hreturns⟩
  · rintro ⟨next, calls, hreturns⟩
    obtain ⟨hnext, hcalls⟩ := h.consistent.returns hreturns
    exact ⟨next, calls, hreturns, hcalls, hnext.registered⟩

/-- A signal with two handlers. -/
def twoHandlers : List (SignalCall Bool Unit Unit) :=
  [.registerSignal (bytes "test-signal"), .registerHandler (bytes "test-signal") false (),
    .registerHandler (bytes "test-signal") true ()]

theorem reached_twoHandlers : ∃ registry, Reached twoHandlers registry :=
  ⟨_, ((Reached.start.next ⟨0, rfl⟩).next ⟨0, rfl⟩).next ⟨0, rfl⟩⟩

theorem meets_iff_twoHandlers : ∃ registry, Reached twoHandlers registry ∧
    (Meets registry twoHandlers (.unregisterHandler (bytes "test-signal") false ()) ↔
      FirstOnly twoHandlers (.unregisterHandler (bytes "test-signal") false ())) := by
  obtain ⟨registry, hreached⟩ := reached_twoHandlers
  exact ⟨registry, hreached, meets_iff hreached _⟩

/-- The second of two handlers cannot be unregistered: the call does not return. -/
theorem not_meets_second : ¬ ∀ (past : List (SignalCall Bool Unit Unit))
    (registry : Signals Bool Unit) (call : SignalCall Bool Unit Unit), Reached past registry →
    Meets registry past call := by
  intro h
  obtain ⟨registry, hreached⟩ := reached_twoHandlers
  obtain ⟨next, calls, hreturns, -⟩ := h twoHandlers registry
    (.unregisterHandler (bytes "test-signal") true ()) hreached
  have hfirst := (hreached.consistent.returns_iff _).mp ⟨next, calls, hreturns⟩
  exact absurd (hfirst.2 (false, ()) [(true, ())] (by decide)) (by decide)

end Hamlog.Library
