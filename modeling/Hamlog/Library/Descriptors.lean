import Hamlog.Library.ReplyMatching

/-! # The descriptors of a connection

`HAMConnection` holds one descriptor, which `ham_connection_connect` stores and
`ham_connection_disconnect` clears. Beside the connection the history of its
calls is kept, the ones that handlers make during a read and the disconnect of
the read itself included, and with it what the kernel and the event loop were
asked to do. A descriptor is never closed, because it is cleared before.
-/
namespace Hamlog.Library
open Foundation Wire

/-- A call, with the connection it is made on. -/
abbrev History := List (HAMConnection × Call)

/-! ## The calls of a read -/

def callsHistory (connection : HAMConnection) : List Call → History
  | [] => []
  | call :: calls => (connection, call) :: callsHistory (applyCall connection call).1 calls

/-- The calls of the handler that `deliver` passes a reply to. -/
def deliverHistory (env : Environment) (connection : HAMConnection) : History :=
  match connection.handlers with
  | [] => []
  | tuple :: handlers =>
    match tuple.handler with
    | none => []
    | some handler =>
      callsHistory { connection with handlers } (env handler tuple.uiData connection.reply)

def parsedHistory (env : Environment) (connection : HAMConnection) : History :=
  if connection.reply.finished then deliverHistory env connection else []

/-- The calls made during `readLoop`, the last of which may be its own disconnect. -/
def loopHistory (env : Environment) : ℕ → HAMConnection → Bytes → ℕ → History
  | 0, _, _, _ => []
  | fuel + 1, connection, data, parsedTotal =>
    if parsedTotal = data.length - 1 then []
    else
      match hamParserParse connection.parser connection.reply (data.drop parsedTotal) with
      | none => []
      | some (parsed, parser, reply) =>
        let connection := { connection with parser, reply }
        if parsed = 0 then [(connection, .disconnect)]
        else
          parsedHistory env connection ++
            loopHistory env fuel (handleParsed env connection).1 data (parsedTotal + parsed)

def readHistory (env : Environment) (connection : HAMConnection) : Option Bytes → History
  | none => []
  | some [] => if connection.fd = -1 then [] else [(connection, .disconnect)]
  | some data =>
    if connection.fd = -1 then [] else loopHistory env (data.length + 1) connection data 0

def actionHistory (env : Environment) (connection : HAMConnection) : Action → History
  | .call call => [(connection, call)]
  | .read result => readHistory env connection result

/-! ## What the system is asked -/

inductive Syscall where
  | socket (fd : ℤ)
  | connect (fd : ℤ)
  | watch (handle : Option ℕ) (fd : ℤ)
  | unwatch (handle : Option ℕ)
  | close (fd : ℤ)
  deriving DecidableEq, Repr

/-- The successful system calls behind a call: `socket` with the descriptor it returned, `connect`,
and what the events of the call say of the event loop and of `close`. -/
def syscalls (connection : HAMConnection) : Call → List Syscall
  | .send _ _ _ => []
  | .disconnect =>
    (hamConnectionDisconnect connection).2.filterMap fun
      | .inputRemove handle => some (.unwatch handle)
      | .close fd => some (.close fd)
      | _ => none
  | .connect outcome =>
    if connection.fd ≠ -1 then []
    else
      match outcome with
      | .lookupFailed _ | .socketFailed _ => []
      | .connectFailed fd _ => [.socket fd]
      | .connected fd handle => [.socket fd, .connect fd, .watch handle fd]

def historySyscalls (history : History) : List Syscall :=
  history.flatMap fun entry => syscalls entry.1 entry.2

/-- The descriptors that are open, those of them that are connected, and what the event loop
watches. -/
structure Kernel where
  opened : List ℤ := []
  connected : List ℤ := []
  watched : List (Option ℕ × ℤ) := []
  deriving DecidableEq

def Kernel.step (kernel : Kernel) : Syscall → Kernel
  | .socket fd => { kernel with opened := fd :: kernel.opened }
  | .connect fd => { kernel with connected := fd :: kernel.connected }
  | .watch handle fd => { kernel with watched := (handle, fd) :: kernel.watched }
  | .unwatch handle => { kernel with watched := kernel.watched.filter (·.1 ≠ handle) }
  | .close fd =>
    { kernel with
      opened := kernel.opened.erase fd
      connected := kernel.connected.filter (· ≠ fd) }

def kernelOf (calls : List Syscall) : Kernel := calls.foldl Kernel.step {}

/-- The connection has a descriptor exactly if it can use it, and every other descriptor that
`socket` returned was closed once for every time it was returned. -/
structure KeepsDescriptors (connection : HAMConnection) (calls : List Syscall) : Prop where
  usable : connection.fd ≠ -1 ↔ connection.fd ∈ (kernelOf calls).opened ∧
    connection.fd ∈ (kernelOf calls).connected ∧
    ∃ handle, (handle, connection.fd) ∈ (kernelOf calls).watched
  closed : ∀ fd, .socket fd ∈ calls →
    calls.count (.close fd) + (if connection.fd = fd then 1 else 0) = calls.count (.socket fd)

/-- The call does not disconnect an open connection, and is no attempt to connect that fails behind
`socket`. -/
def Harmless (entry : HAMConnection × Call) : Bool :=
  match entry.2 with
  | .disconnect => entry.1.fd = -1
  | .connect (.connectFailed _ _) => entry.1.fd ≠ -1
  | _ => true

/-- A descriptor that `socket` returns is not the value of a failure. -/
def ValidCall (entry : HAMConnection × Call) : Bool :=
  match entry.2 with
  | .connect (.connectFailed fd _) | .connect (.connected fd _) => fd ≠ -1
  | _ => true

/-- The runs of a connection with the history of its calls. -/
def descriptorSystem (env : Environment) : System (HAMConnection × History) Action where
  start := ({}, [])
  enabled state action := (actionHistory env state.1 action).all ValidCall
  step := fun (connection, history) action =>
    match action with
    | .call call =>
      some ((applyCall connection call).1, history ++ actionHistory env connection action)
    | .read result =>
      match hamConnectionReadData env connection result with
      | .error _ => none
      | .ok (after, _) => some (after, history ++ actionHistory env connection action)

/-! ## The history is that of the code -/

/-- The descriptor and the handle that a connection holds. -/
def held (connection : HAMConnection) : ℤ × Option ℕ := (connection.fd, connection.inputHandle)

/-- Every call is made on what the calls before it left. -/
def Chain : ℤ × Option ℕ → History → ℤ × Option ℕ → Prop
  | before, [], after => before = after
  | before, (connection, call) :: history, after =>
    held connection = before ∧ Chain (held (applyCall connection call).1) history after

theorem Chain.append {before between after : ℤ × Option ℕ} {xs ys : History}
    (hxs : Chain before xs between) (hys : Chain between ys after) :
    Chain before (xs ++ ys) after := by
  induction xs generalizing before with
  | nil =>
    cases hxs
    exact hys
  | cons entry xs ih => exact ⟨hxs.1, ih hxs.2⟩

/-- The event that shows a system call. -/
def Syscall.event : Syscall → Option Event
  | .socket _ | .connect _ => none
  | .watch _ fd => some (.inputAdd fd)
  | .unwatch handle => some (.inputRemove handle)
  | .close fd => some (.close fd)

def onDescriptor : Event → Bool
  | .close _ | .inputAdd _ | .inputRemove _ => true
  | _ => false

/-- The history accounts for what the code did: for the descriptor that it left in the connection,
and for every event that concerns the event loop or `close`. -/
structure Explains (before after : ℤ × Option ℕ) (events : List Event) (history : History) :
    Prop where
  chain : Chain before history after
  events : events.filter onDescriptor = (historySyscalls history).filterMap Syscall.event

section Explains
variable {before between after : ℤ × Option ℕ} {events others : List Event} {history : History}

theorem Explains.append {ys : History} (hxs : Explains before between events history)
    (hys : Explains between after others ys) :
    Explains before after (events ++ others) (history ++ ys) where
  chain := hxs.chain.append hys.chain
  events := by simp [historySyscalls, hxs.events, hys.events]

/-- An event of another kind in front. -/
theorem Explains.cons (h : Explains before after events history) (event : Event)
    (hevent : onDescriptor event = false) : Explains before after (event :: events) history :=
  ⟨h.chain, by rw [List.filter_cons_of_neg (by simp [hevent]), h.events]⟩

theorem explains_nil (before : ℤ × Option ℕ) : Explains before before [] [] := ⟨rfl, rfl⟩

end Explains

variable {env : Environment} {connection after : HAMConnection} {events : List Event}

theorem explains_call (connection : HAMConnection) (call : Call) :
    Explains (held connection) (held (applyCall connection call).1) (applyCall connection call).2
      [(connection, call)] := by
  refine ⟨⟨rfl, rfl⟩, ?_⟩
  simp only [historySyscalls, List.flatMap_cons, List.flatMap_nil, List.append_nil]
  cases call with
  | send request handler uiData =>
    simp only [applyCall, hamConnectionSend, syscalls]
    split_ifs <;> rfl
  | disconnect =>
    simp only [applyCall, hamConnectionDisconnect, syscalls]
    split_ifs <;> rfl
  | connect outcome =>
    simp only [applyCall, hamConnectionConnect, syscalls]
    split_ifs
    · rfl
    · cases outcome with
      | connected fd handle =>
        simp only [hamConnectionSend]
        split_ifs <;> rfl
      | lookupFailed | socketFailed | connectFailed => rfl

theorem explains_calls (connection : HAMConnection) (calls : List Call) :
    Explains (held connection) (held (applyCalls connection calls).1)
      (applyCalls connection calls).2 (callsHistory connection calls) := by
  induction calls generalizing connection with
  | nil => exact explains_nil _
  | cons call calls ih => exact (explains_call connection call).append (ih _)

theorem explains_deliver (env : Environment) (connection : HAMConnection) :
    Explains (held connection) (held (deliver env connection).1) (deliver env connection).2
      (deliverHistory env connection) := by
  unfold deliverHistory deliver
  cases connection.handlers with
  | nil => exact (explains_nil (held connection)).cons (.signal _ _) rfl
  | cons tuple handlers =>
    cases hhandler : tuple.handler with
    | none =>
      simp only [hhandler]
      exact (explains_nil (held connection)).cons (.signal _ _) rfl
    | some handler =>
      simp only [hhandler]
      have hcalls := explains_calls { connection with handlers }
        (env handler tuple.uiData connection.reply)
      exact (hcalls.cons (.handle _ _ _) rfl).cons (.signal _ _) rfl

theorem explains_parsed (env : Environment) (connection : HAMConnection) :
    Explains (held connection) (held (handleParsed env connection).1)
      (handleParsed env connection).2 (parsedHistory env connection) := by
  unfold handleParsed parsedHistory
  split_ifs
  · exact explains_deliver env connection
  · exact explains_nil _

theorem explains_loop {fuel : ℕ} {data : Bytes} {parsedTotal total : ℕ}
    (h : readLoop env fuel connection data parsedTotal = .ok (after, total, events)) :
    Explains (held connection) (held after) events
      (loopHistory env fuel connection data parsedTotal) := by
  induction fuel generalizing connection parsedTotal total events with
  | zero => cases h
  | succ fuel ih =>
    rw [readLoop] at h
    rw [loopHistory]
    split_ifs at h ⊢ with hend
    · cases h
      exact explains_nil _
    cases hparse : hamParserParse connection.parser connection.reply (data.drop parsedTotal) with
    | none => simp [hparse] at h
    | some result =>
      obtain ⟨parsed, parser, reply⟩ := result
      simp only [hparse] at h ⊢
      split_ifs at h ⊢ with hzero
      · cases h
        exact (explains_call { connection with parser, reply } .disconnect).cons (.signal _ _) rfl
      · cases hloop : readLoop env fuel (handleParsed env { connection with parser, reply }).1 data
            (parsedTotal + parsed) with
        | error halt => simp [hloop] at h
        | ok outcome =>
          obtain ⟨last, count, others⟩ := outcome
          simp only [hloop, Except.ok.injEq, Prod.mk.injEq] at h
          obtain ⟨rfl, -, rfl⟩ := h
          exact (explains_parsed env { connection with parser, reply }).append (ih hloop)

/-- What a read does to the descriptor and asks of the system is in the history of its calls. -/
theorem explains_read {read : Option Bytes}
    (h : hamConnectionReadData env connection read = .ok (after, events)) :
    Explains (held connection) (held after) events (readHistory env connection read) := by
  unfold hamConnectionReadData at h
  split_ifs at h with hfd
  · cases h
    cases read with
    | none => exact explains_nil _
    | some data => cases data <;> simpa [readHistory, hfd] using explains_nil _
  · cases read with
    | none => cases h
    | some data =>
      cases data with
      | nil =>
        cases h
        simp only [readHistory, if_neg hfd]
        exact (explains_call connection .disconnect).cons (.signal _ _) rfl
      | cons first rest =>
        simp only [readHistory, if_neg hfd]
        dsimp only at h
        split_ifs at h
        cases hloop : readLoop env ((first :: rest).length + 1) connection (first :: rest) 0 with
        | error halt =>
          rw [hloop] at h
          cases h
        | ok outcome =>
          obtain ⟨last, total, others⟩ := outcome
          simp only [hloop, Except.ok.injEq, Prod.mk.injEq] at h
          obtain ⟨rfl, rfl⟩ := h
          exact explains_loop hloop

/-! ## What harmless calls keep -/

/-- At most one descriptor was ever asked for, and it is the one that is held. -/
def Quiet (before : ℤ × Option ℕ) (calls : List Syscall) : Prop :=
  before.1 = -1 ∧ calls = [] ∨
    before.1 ≠ -1 ∧ calls = [.socket before.1, .connect before.1, .watch before.2 before.1]

/-- A descriptor was lost, or the one that is held is not connected. -/
def Broken (fd : ℤ) (calls : List Syscall) : Prop :=
  (∃ lost, .socket lost ∈ calls ∧ (if fd = lost then 1 else 0) < calls.count (.socket lost)) ∨
    fd ≠ -1 ∧ fd ∉ (kernelOf calls).connected

/-- What holds behind calls, which were all harmless or not. No descriptor is ever closed. -/
structure Tracked (before : ℤ × Option ℕ) (calls : List Syscall) (harmless : Bool) : Prop where
  closed : ∀ fd, .close fd ∈ calls → fd = -1
  returned : ∀ fd, .socket fd ∈ calls → fd ≠ -1
  holds : before.1 ≠ -1 → .socket before.1 ∈ calls
  quiet : harmless = true → Quiet before calls
  broken : harmless = false → Broken before.1 calls

theorem Tracked.keeps_iff {calls : List Syscall} {harmless : Bool}
    (h : Tracked (held connection) calls harmless) :
    KeepsDescriptors connection calls ↔ harmless = true := by
  constructor
  · intro hkeeps
    by_contra hharm
    rcases h.broken (by simpa using hharm) with ⟨lost, hlost, hcount⟩ | ⟨hfd, hconnected⟩
    · have hnone : calls.count (.close lost) = 0 :=
        List.count_eq_zero.mpr fun hclose => h.returned lost hlost (h.closed lost hclose)
      have hclosed := hkeeps.closed lost hlost
      rw [hnone] at hclosed
      rw [show (held connection).1 = connection.fd from rfl] at hcount
      omega
    · exact hconnected (hkeeps.usable.mp hfd).2.1
  · intro hharmless
    rcases h.quiet hharmless with ⟨hfd, rfl⟩ | ⟨hfd, rfl⟩
    · refine ⟨?_, by simp⟩
      dsimp only [held] at hfd
      simp [hfd, kernelOf]
    · refine ⟨?_, ?_⟩
      · dsimp only [held] at hfd
        simp [hfd, kernelOf, Kernel.step, held]
      · intro fd hmem
        obtain rfl : fd = connection.fd := by simpa [held] using hmem
        simp [held]

/-- A lost descriptor stays lost when another one is asked for. -/
theorem Broken.opened {calls others : List Syscall} (h : Broken (-1) calls) (fd : ℤ)
    (hothers : .socket fd ∈ others) : Broken fd (calls ++ others) := by
  rcases h with ⟨lost, hlost, -⟩ | ⟨hfd, -⟩
  · refine .inl ⟨lost, List.mem_append_left _ hlost, ?_⟩
    have hpos := List.count_pos_iff.mpr hlost
    rw [List.count_append]
    split_ifs with heq
    · subst heq
      have hagain := List.count_pos_iff.mpr hothers
      omega
    · omega
  · exact absurd rfl hfd

theorem Tracked.call {calls : List Syscall} {harmless : Bool} {call : Call}
    (h : Tracked (held connection) calls harmless) (hvalid : ValidCall (connection, call) = true) :
    Tracked (held (applyCall connection call).1) (calls ++ syscalls connection call)
      (harmless && Harmless (connection, call)) := by
  cases call with
  | send request handler uiData =>
    have hheld : held (hamConnectionSend connection request handler uiData).1 =
        held connection := by
      unfold hamConnectionSend
      split_ifs <;> rfl
    simpa [applyCall, syscalls, Harmless, hheld] using h
  | disconnect =>
    by_cases hfd : connection.fd = -1
    · simpa [applyCall, hamConnectionDisconnect, syscalls, Harmless, hfd] using h
    · have hheld : held (hamConnectionDisconnect connection).1 = (-1, none) := by
        simp [hamConnectionDisconnect, hfd, held]
      have hsyscalls : syscalls connection .disconnect =
          [.unwatch connection.inputHandle, .close (-1)] := by
        simp [syscalls, hamConnectionDisconnect, hfd]
      have hharm : Harmless (connection, .disconnect) = false := by simp [Harmless, hfd]
      rw [applyCall, hheld, hsyscalls, hharm, Bool.and_false]
      refine ⟨?_, ?_, fun hne => absurd rfl hne, fun hf => absurd hf (by simp), fun _ => .inl ?_⟩
      · simpa [or_imp, forall_and] using h.closed
      · simpa using h.returned
      · -- the descriptor that was held is forgotten
        have hmem : .socket connection.fd ∈ calls := h.holds hfd
        refine ⟨connection.fd, List.mem_append_left _ hmem, ?_⟩
        have hpos := List.count_pos_iff.mpr hmem
        rw [List.count_append, if_neg (Ne.symm hfd)]
        omega
  | connect outcome =>
    by_cases hfd : connection.fd = -1
    · cases outcome with
      | lookupFailed error =>
        simpa [applyCall, hamConnectionConnect, syscalls, Harmless, hfd] using h
      | socketFailed error =>
        have hheld : held { connection with fd := -1 } = held connection := by simp [held, hfd]
        simpa [applyCall, hamConnectionConnect, syscalls, Harmless, hfd, hheld] using h
      | connectFailed fd error =>
        have hfd' : fd ≠ -1 := by simpa [ValidCall] using hvalid
        have hheld : held (applyCall connection (.connect (.connectFailed fd error))).1 =
            (fd, connection.inputHandle) := by
          simp [applyCall, hamConnectionConnect, hfd, held]
        have hsyscalls : syscalls connection (.connect (.connectFailed fd error)) =
            [.socket fd] := by
          simp [syscalls, hfd]
        have hharm : Harmless (connection, .connect (.connectFailed fd error)) = false := by
          simp [Harmless, hfd]
        rw [hheld, hsyscalls, hharm, Bool.and_false]
        refine ⟨by simpa using h.closed, ?_, by simp, fun hf => absurd hf (by simp), fun _ => ?_⟩
        · simpa [or_imp, forall_and, hfd'] using h.returned
        · cases harmless with
          | true =>
            rcases h.quiet rfl with ⟨-, rfl⟩ | ⟨hne, -⟩
            · exact .inr ⟨hfd', by simp [kernelOf, Kernel.step]⟩
            · exact absurd hfd hne
          | false =>
            have hbroken := h.broken rfl
            rw [show (held connection).1 = -1 from hfd] at hbroken
            exact hbroken.opened fd (by simp)
      | connected fd handle =>
        have hfd' : fd ≠ -1 := by simpa [ValidCall] using hvalid
        have hheld : held (applyCall connection (.connect (.connected fd handle))).1 =
            (fd, handle) := by
          simp [applyCall, hamConnectionConnect, hamConnectionSend, hfd, hfd', held]
        have hsyscalls : syscalls connection (.connect (.connected fd handle)) =
            [.socket fd, .connect fd, .watch handle fd] := by
          simp [syscalls, hfd]
        have hharm : Harmless (connection, .connect (.connected fd handle)) = true := rfl
        rw [hheld, hsyscalls, hharm, Bool.and_true]
        refine ⟨by simpa using h.closed, ?_, by simp, fun hharmless => ?_, fun hharmed => ?_⟩
        · simpa [or_imp, forall_and, hfd'] using h.returned
        · rcases h.quiet hharmless with ⟨-, rfl⟩ | ⟨hne, -⟩
          · exact .inr ⟨hfd', rfl⟩
          · exact absurd hfd hne
        · have hbroken := h.broken hharmed
          rw [show (held connection).1 = -1 from hfd] at hbroken
          exact hbroken.opened fd (by simp)
    · cases outcome <;> simpa [applyCall, hamConnectionConnect, syscalls, Harmless, hfd] using h

theorem Tracked.chain {before after : ℤ × Option ℕ} {history : History} {calls : List Syscall}
    {harmless : Bool} (h : Tracked before calls harmless) (hchain : Chain before history after)
    (hvalid : history.all ValidCall = true) :
    Tracked after (calls ++ historySyscalls history) (harmless && history.all Harmless) := by
  induction history generalizing before calls harmless with
  | nil =>
    cases hchain
    simpa [historySyscalls] using h
  | cons entry history ih =>
    obtain ⟨connection, call⟩ := entry
    obtain ⟨rfl, hchain⟩ := hchain
    rw [List.all_cons, Bool.and_eq_true] at hvalid
    have hnext := ih (h.call hvalid.1) hchain hvalid.2
    simpa [historySyscalls, Bool.and_assoc] using hnext

theorem tracked_of_run {actions : List Action} {state : HAMConnection × History}
    (h : System.Run (descriptorSystem env) (fun _ _ => true) actions state) :
    Tracked (held state.1) (historySyscalls state.2) (state.2.all Harmless) := by
  refine System.Run.invariant
    (I := fun _ s => Tracked (held s.1) (historySyscalls s.2) (s.2.all Harmless)) ?_ ?_ h
  · exact ⟨by simp [descriptorSystem, historySyscalls], by simp [descriptorSystem, historySyscalls],
      fun hne => absurd rfl hne, fun _ => .inl ⟨rfl, rfl⟩,
      fun hf => absurd hf (by simp [descriptorSystem])⟩
  · rintro past ⟨connection, history⟩ action after ih hvalid - hstep
    have happend (others : History) : historySyscalls (history ++ others) =
        historySyscalls history ++ historySyscalls others := List.flatMap_append
    cases action with
    | call call =>
      cases hstep
      dsimp only
      rw [happend, List.all_append]
      exact ih.chain (explains_call connection call).chain hvalid
    | read result =>
      simp only [descriptorSystem] at hstep
      cases hread : hamConnectionReadData env connection result with
      | error halt => simp [hread] at hstep
      | ok outcome =>
        rw [hread] at hstep
        cases hstep
        dsimp only
        rw [happend, List.all_append]
        exact ih.chain (explains_read hread).chain hvalid

/-- In every run, the connection keeps its descriptors exactly if no open connection was ever
disconnected, and no attempt to connect failed behind `socket`. -/
theorem keepsDescriptors_iff (env : Environment) (actions : List Action)
    (state : HAMConnection × History)
    (h : System.Run (descriptorSystem env) (fun _ _ => true) actions state) :
    KeepsDescriptors state.1 (historySyscalls state.2) ↔
      ∀ entry ∈ state.2, Harmless entry = true := by
  rw [(tracked_of_run h).keeps_iff, List.all_eq_true]

theorem keepsDescriptors_iff_connected :
    ∃ state, System.Run (descriptorSystem asksFurther) (fun _ _ => true)
        [.call (.connect (.connected 4 (some 0))), .read (some listReply)] state ∧
      state.1.fd = 4 ∧ (KeepsDescriptors state.1 (historySyscalls state.2) ↔
        ∀ entry ∈ state.2, Harmless entry = true) := by
  have hexec : (System.exec (descriptorSystem asksFurther) (fun _ _ => true)
      (descriptorSystem asksFurther).start
      [.call (.connect (.connected 4 (some 0))), .read (some listReply)]).any
      (fun state => decide (state.1.fd = 4)) = true := by decide +kernel
  obtain ⟨state, hrun, hfd⟩ := System.exists_run_of_exec hexec
  exact ⟨state, hrun, of_decide_eq_true hfd, keepsDescriptors_iff asksFurther _ state hrun⟩

/-- The descriptor of a connection that is disconnected is not closed. -/
theorem not_keepsDescriptors_disconnect :
    ¬ ∀ (env : Environment) (actions : List Action) (state : HAMConnection × History),
      System.Run (descriptorSystem env) (fun _ _ => true) actions state →
        KeepsDescriptors state.1 (historySyscalls state.2) := by
  intro h
  have hexec : (System.exec (descriptorSystem asksFurther) (fun _ _ => true)
      (descriptorSystem asksFurther).start
      [.call (.connect (.connected 4 (some 0))), .call .disconnect]).any
      (fun state => decide (state.1.fd = -1 ∧ historySyscalls state.2 =
        [.socket 4, .connect 4, .watch (some 0) 4, .unwatch (some 0), .close (-1)])) = true := by
    decide +kernel
  obtain ⟨state, hrun, hstate⟩ := System.exists_run_of_exec hexec
  obtain ⟨hfd, hsyscalls⟩ := of_decide_eq_true hstate
  have hclosed := (h asksFurther _ state hrun).closed 4 (by rw [hsyscalls]; decide)
  rw [hfd, hsyscalls] at hclosed
  exact absurd hclosed (by decide)

end Hamlog.Library
