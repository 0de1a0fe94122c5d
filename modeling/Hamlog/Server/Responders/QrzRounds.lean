import Hamlog.Server.Responders.QrzLeftovers

/-! # How many exchanges a request takes

A request takes one exchange for its call sign, and one for a key in front of it
if the session has none. A document with neither an error nor a call sign makes
the module ask again, and it does not count how often it has done so.
-/
namespace Hamlog.Server.QRZ
open Foundation Wire RequestParser

variable {ε : Type*} (qrz : QRZ ε) (others : List (Responder Unit ε)) (authenticated : ε → Bool)

/-- A session, and for each exchange that was begun the reply that the session waited for. -/
structure Dialogue (ε : Type*) where
  session : Session (QRZState ε)
  exchanges : List (Option ℕ) := []

def connects (session : Session (QRZState ε)) : ℕ := session.modules.pending.count .connect

/-- How many connections an event has started. -/
def started (session next : Session (QRZState ε)) : Event ε → ℕ
  | .complete index _ => connects next - connects (take session index)
  | _ => connects next - connects session

def Dialogue.step (dialogue : Dialogue ε) (event : Event ε) : Option (Dialogue ε) :=
  (qrz.step others authenticated dialogue.session event).map fun next =>
    { session := next
      exchanges := dialogue.exchanges ++
        List.replicate (started dialogue.session next event) next.currentReply }

def dialogues (env : ε) : System (Dialogue ε) (Event ε) where
  start := { session := Session.start { env } }
  enabled dialogue := enabled dialogue.session
  step := Dialogue.step qrz others authenticated

/-- No request takes more than two exchanges. -/
def Bounded (dialogue : Dialogue ε) : Prop := ∀ n, dialogue.exchanges.count (some n) ≤ 2

/-- A document that is read in the second exchange for a request, or in a later one, holds an error
or a call sign. -/
def concludes (dialogue : Dialogue ε) : Event ε → Bool
  | .complete index completion =>
    dialogue.session.modules.pending[index]? != some .read ||
      dialogue.exchanges.count dialogue.session.currentReply < 2 ||
      qrz.ends dialogue.session index completion
  | _ => true

theorem run_session {env : ε} {guard : Dialogue ε → Event ε → Bool} {events : List (Event ε)}
    {dialogue : Dialogue ε}
    (hrun : (qrz.dialogues others authenticated env).Run guard events dialogue) :
    (qrz.system others authenticated env).Run (fun _ _ => true) events dialogue.session := by
  induction hrun with
  | start => exact System.Run.start
  | next _ henabled _ hstep ih =>
    obtain ⟨next, hnext, rfl⟩ := Option.map_eq_some_iff.mp hstep
    exact ih.next henabled rfl hnext

/-! ## One turn of the loop -/

/-- A turn of the loop; `k` replies were there before. -/
structure Quiet (k : ℕ) (session : Session (QRZState ε)) : Prop where
  looping : Looping session
  replies : k ≤ session.replies.length

structure Dials (session : Session (QRZState ε)) (n : ℕ) (operation : Operation) : Prop where
  waits : Waits session n
  pending : session.modules.pending = [operation]
  last : session.replies.length = n + 1

/-- Behind the loop the session reads, or it has begun the exchange of a new request. -/
def Resumed (k : ℕ) (session : Session (QRZState ε)) : Prop :=
  Idle session ∧ k ≤ session.replies.length ∨ ∃ n, k ≤ n ∧ Dials session n .connect

theorem quiet_rule (k : ℕ) :
    Session.LoopRule (qrz.requestHandler others authenticated) (Quiet k) (Resumed k) where
  last h _ := .inl ⟨h.looping.startRead, h.replies⟩
  reject h hp := .inl ⟨h.looping.reject hp, h.replies⟩
  more h _ hp := ⟨h.looping.more hp, h.replies⟩
  async := by
    intro session data rest t h hdata hp hasync
    rcases afterRequest_handled qrz others authenticated session data.length t with
      ⟨hsync, -, -⟩ | ⟨-, -, hpending, -⟩
    · rw [hsync] at hasync
      cases hasync
    · refine .inr ⟨session.replies.length, h.replies,
        h.looping.waits qrz others authenticated hdata hp, ?_, ?_⟩
      · simp [hpending, h.looping.pending]
      · simp [Session.afterRequest, Session.dispatch, Session.advance]
  sync := by
    intro session data rest t h hdata hp hsync
    rcases afterRequest_handled qrz others authenticated session data.length t with
      ⟨-, hpending, -⟩ | ⟨hasync, -⟩
    · refine ⟨h.looping.writeReply qrz others authenticated hpending, ?_⟩
      have hreplies := h.replies
      simp only [Session.afterRequest, Session.dispatch, Session.advance, Session.writeReply,
        List.length_set, List.length_append, List.length_singleton]
      omega
    · rw [hsync] at hasync
      cases hasync

theorem Quiet.handleRead {k : ℕ} {session : Session (QRZState ε)} (h : Quiet k session)
    (hle : session.parsedTotal ≤ session.buffer.length) :
    Resumed k (session.handleRead (qrz.requestHandler others authenticated)) := by
  refine (quiet_rule qrz others authenticated k).readLoop h h.looping.unfinished hle ?_
  simp [Session.ahead]

/-! ## One event -/

/-- The operation behind one that is done. -/
def following : Operation → Operation
  | .connect => .write
  | .write => .read
  | .read => .connect

theorem resumed_reset {k : ℕ} {session : Session (QRZState ε)} (h : Resumed k session) :
    Resumed k (resetReply session) := by
  rcases h with ⟨hidle, hreplies⟩ | ⟨n, hn, ⟨h1, h2, h3, h4, h5⟩, hpending, hlast⟩
  · exact .inl ⟨resetReply_idle hidle, hreplies⟩
  · exact .inr ⟨n, hn, ⟨h1, h2, h3, h4, h5⟩, hpending, hlast⟩

theorem finish_resumed {session next : Session (QRZState ε)} {n : ℕ} (h : Waits session n)
    (hpending : session.modules.pending = []) (hlast : session.replies.length = n + 1)
    (data : QRZModuleData) (fill : Reply → Reply)
    (hnext : qrz.finish others authenticated session data fill = some next) :
    Resumed (n + 1) next := by
  obtain ⟨id, hlooping, htotal, rfl⟩ :=
    finish_eq_some qrz others authenticated h hpending data fill hnext
  have hreplies : n + 1 ≤ ((fillReply session data id fill).sendCurrent n).replies.length := by
    simp [fillReply, Session.sendCurrent, Session.writeReply, hlast]
  have hquiet : Quiet (n + 1) ((fillReply session data id fill).sendCurrent n) :=
    ⟨hlooping, hreplies⟩
  exact resumed_reset (hquiet.handleRead qrz others authenticated htotal)

/-- A completion ends the exchange, or the next operation is under way for the same request. -/
theorem complete_dials {session next : Session (QRZState ε)} {n : ℕ} {operation : Operation}
    (h : Dials session n operation) {completion : Completion}
    (hnext : qrz.complete others authenticated session 0 completion = some next) :
    (qrz.ends session 0 completion = true ∧ Resumed (n + 1) next) ∨
      (qrz.ends session 0 completion = false ∧ Dials next n (following operation)) := by
  have hget : session.modules.pending[0]? = some operation := by simp [h.pending]
  have htaken : (take session 0).modules.pending = [] := by simp [take, h.pending]
  have hwaits : Waits (take session 0) n :=
    ⟨h.waits.current, h.waits.reads, h.waits.total, h.waits.unfinished, h.waits.numbered⟩
  have hfinish {data : QRZModuleData} {fill : Reply → Reply}
      (hfinished : qrz.finish others authenticated (take session 0) data fill = some next) :
      Resumed (n + 1) next :=
    finish_resumed qrz others authenticated hwaits htaken h.last data fill hfinished
  have hbegin (data : QRZModuleData) (operation : Operation) :
      Dials (begin (take session 0) data operation) n operation :=
    ⟨⟨h.waits.current, h.waits.reads, h.waits.total, h.waits.unfinished, h.waits.numbered⟩,
      by simp [QRZ.begin, htaken], h.last⟩
  unfold QRZ.complete at hnext
  cases hdata : session.modules.data with
  | none => simp [hdata] at hnext
  | some data =>
    simp only [hdata, hget] at hnext
    simp only [ends, hdata, hget]
    cases operation with
    | connect =>
      unfold handleQRZConnected at hnext
      split_ifs at hnext with hfailed
      · exact .inl ⟨by simp [hfailed], hfinish hnext⟩
      · obtain rfl := Option.some.inj hnext
        exact .inr ⟨by simp [hfailed], hbegin _ _⟩
    | write =>
      unfold handleQRZWriteRequest at hnext
      split_ifs at hnext with hfailed
      · exact .inl ⟨by simp [hfailed], hfinish hnext⟩
      · obtain rfl := Option.some.inj hnext
        exact .inr ⟨by simp [hfailed], hbegin _ _⟩
    | read =>
      unfold handleQRZReadKey at hnext
      split_ifs at hnext with hfailed
      · exact .inl ⟨by simp [hfailed], hfinish hnext⟩
      dsimp only at hnext
      cases herror : (qrz.document data completion).error with
      | some error =>
        simp only [herror] at hnext
        exact .inl ⟨by simp [herror], hfinish hnext⟩
      | none =>
        cases hcallsign : (qrz.document data completion).callsign with
        | some names =>
          simp only [herror, hcallsign] at hnext
          exact .inl ⟨by simp [hcallsign], hfinish hnext⟩
        | none =>
          simp only [herror, hcallsign, Option.some.injEq] at hnext
          subst hnext
          exact .inr ⟨by simp [hfailed, herror, hcallsign], hbegin _ _⟩

/-! ## The record -/

/-- Between two events: the exchanges were begun for requests of the session, and for none more
than two. -/
structure Tallied (dialogue : Dialogue ε) : Prop where
  calm : Idle dialogue.session ∨ ∃ n operation, Dials dialogue.session n operation
  known : ∀ entry ∈ dialogue.exchanges, ∃ n < dialogue.session.replies.length, entry = some n
  bounded : Bounded dialogue

theorem tallied_resumed {session : Session (QRZState ε)} {exchanges : List (Option ℕ)} {k : ℕ}
    (hknown : ∀ entry ∈ exchanges, ∃ n < k, entry = some n)
    (hbounded : ∀ n, exchanges.count (some n) ≤ 2) (h : Resumed k session) :
    Tallied ⟨session, exchanges ++ List.replicate (connects session) session.currentReply⟩ := by
  rcases h with ⟨hidle, hreplies⟩ | ⟨n, hn, hdials⟩
  · have hnone : connects session = 0 := by simp [connects, hidle.pending]
    rw [hnone, List.replicate_zero, List.append_nil]
    refine ⟨.inl hidle, fun entry hentry => ?_, hbounded⟩
    obtain ⟨m, hm, rfl⟩ := hknown entry hentry
    exact ⟨m, hm.trans_le hreplies, rfl⟩
  · have hone : connects session = 1 := by simp [connects, hdials.pending]
    have hzero : exchanges.count (some n) = 0 := by
      rw [List.count_eq_zero]
      intro hmem
      obtain ⟨m, hm, heq⟩ := hknown _ hmem
      cases heq
      omega
    rw [hone, hdials.waits.current, List.replicate_one]
    refine ⟨.inr ⟨n, _, hdials⟩, fun entry hentry => ?_, fun m => ?_⟩
    · have hlast := hdials.last
      rcases List.mem_append.mp hentry with hentry | hentry
      · obtain ⟨m, hm, rfl⟩ := hknown entry hentry
        exact ⟨m, by simp only; omega, rfl⟩
      · exact ⟨n, by simp only; omega, List.mem_singleton.mp hentry⟩
    · rw [List.count_append, List.count_singleton]
      have hm := hbounded m
      split_ifs with heq
      · obtain rfl : n = m := by simpa using heq
        omega
      · omega

theorem tallied_dials {session next : Session (QRZState ε)} {exchanges : List (Option ℕ)} {n : ℕ}
    {operation : Operation} (h : Tallied ⟨session, exchanges⟩) (hdials : Dials session n operation)
    (hnext : Dials next n (following operation))
    (hcount : operation = .read → exchanges.count (some n) < 2) :
    Tallied ⟨next, exchanges ++ List.replicate (connects next) next.currentReply⟩ := by
  have hknown {entry : Option ℕ} (hentry : entry ∈ exchanges) :
      ∃ m < next.replies.length, entry = some m := by
    obtain ⟨m, hm, rfl⟩ := h.known entry hentry
    exact ⟨m, by rw [hnext.last, ← hdials.last]; exact hm, rfl⟩
  have hconnects : connects next = if operation = .read then 1 else 0 := by
    cases operation <;> simp [connects, hnext.pending, following]
  rw [hconnects, hnext.waits.current]
  refine ⟨.inr ⟨n, _, hnext⟩, fun entry hentry => ?_, fun m => ?_⟩
  · rcases List.mem_append.mp hentry with hentry | hentry
    · exact hknown hentry
    · exact ⟨n, by simp only [hnext.last]; omega, List.eq_of_mem_replicate hentry⟩
  · have hm := h.bounded m
    rw [List.count_append, List.count_replicate]
    split_ifs with hsame hread
    · obtain rfl : n = m := by simpa using hsame
      have hlt := hcount hread
      omega
    · exact hm
    · exact hm

/-- An enabled event keeps the bound if and only if the document of a second exchange ends it. -/
theorem tallied_step {dialogue next : Dialogue ε} (h : Tallied dialogue) {event : Event ε}
    (henabled : enabled dialogue.session event = true)
    (hstep : Dialogue.step qrz others authenticated dialogue event = some next) :
    (concludes qrz dialogue event = true → Tallied next) ∧
      (concludes qrz dialogue event = false → ¬ Bounded next) := by
  obtain ⟨session, hsession, rfl⟩ := Option.map_eq_some_iff.mp hstep
  cases event with
  | read data =>
    refine ⟨fun _ => ?_, fun hfalse => absurd hfalse (by simp [concludes])⟩
    obtain ⟨hreads, -, -⟩ := of_decide_eq_true henabled
    obtain rfl := Option.some.inj hsession
    rcases h.calm with hidle | ⟨n, operation, hdials⟩
    · have hquiet : Quiet dialogue.session.replies.length { dialogue.session with
          reads := dialogue.session.reads - 1, buffer := data } :=
        ⟨hidle.read data, le_refl _⟩
      have hnone : connects dialogue.session = 0 := by simp [connects, hidle.pending]
      have hresumed := hquiet.handleRead qrz others authenticated (by simp [hidle.total])
      simp only [started, hnone, Nat.sub_zero]
      exact tallied_resumed h.known h.bounded hresumed
    · exact absurd hdials.waits.reads hreads
  | change env =>
    refine ⟨fun _ => ?_, fun hfalse => absurd hfalse (by simp [concludes])⟩
    obtain rfl := Option.some.inj hsession
    have hsame : started dialogue.session
        { dialogue.session with modules := { dialogue.session.modules with env } }
        (.change env) = 0 := Nat.sub_self _
    rw [hsame, List.replicate_zero, List.append_nil]
    refine ⟨?_, h.known, h.bounded⟩
    rcases h.calm with ⟨h1, h2, h3, h4, h5, h6⟩ | ⟨n, operation, ⟨h1, h2, h3, h4, h5⟩, h6, h7⟩
    · exact .inl ⟨h1, h2, h3, h4, h5, h6⟩
    · exact .inr ⟨n, operation, ⟨h1, h2, h3, h4, h5⟩, h6, h7⟩
  | complete index completion =>
    have hindex : index < dialogue.session.modules.pending.length := of_decide_eq_true henabled
    rcases h.calm with hidle | ⟨n, operation, hdials⟩
    · simp [hidle.pending] at hindex
    obtain rfl : index = 0 := by simpa [hdials.pending] using hindex
    have hget : dialogue.session.modules.pending[0]? = some operation := by simp [hdials.pending]
    have htaken : connects (take dialogue.session 0) = 0 := by
      simp [connects, take, hdials.pending]
    simp only [started, htaken, Nat.sub_zero]
    rcases complete_dials qrz others authenticated hdials hsession with
      ⟨hends, hresumed⟩ | ⟨hends, hnext⟩
    · refine ⟨fun _ => tallied_resumed (fun entry hentry => ?_) h.bounded hresumed,
        fun hfalse => absurd hfalse (by simp [concludes, hends])⟩
      obtain ⟨m, hm, rfl⟩ := h.known entry hentry
      exact ⟨m, hdials.last ▸ hm, rfl⟩
    · refine ⟨fun hconcludes => tallied_dials h hdials hnext ?_, fun hopen hbounded => ?_⟩
      · rintro rfl
        simpa [concludes, hget, hends, hdials.waits.current] using hconcludes
      · have hread : operation = .read ∧ 1 < dialogue.exchanges.count (some n) := by
          simpa [concludes, hget, hends, hdials.waits.current] using hopen
        obtain ⟨rfl, hcount⟩ := hread
        have hone : connects session = 1 := by simp [connects, hnext.pending, following]
        have hthird := hbounded n
        rw [hone, hnext.waits.current, List.count_append, List.replicate_one,
          List.count_singleton_self] at hthird
        omega

/-! ## Whole runs -/

/-- In every run in which each document of a second exchange holds an error or a call sign, no
request takes more than two exchanges, and the next event keeps it so if and only if it is no
document without them in a second exchange. -/
theorem bounded_of_concludes (env : ε) (events : List (Event ε)) (dialogue : Dialogue ε)
    (hrun : (qrz.dialogues others authenticated env).Run (concludes qrz) events dialogue) :
    Bounded dialogue ∧ ∀ event next, enabled dialogue.session event = true →
      Dialogue.step qrz others authenticated dialogue event = some next →
        (Bounded next ↔ concludes qrz dialogue event = true) := by
  have htallied : Tallied dialogue := by
    refine System.Run.invariant (I := fun _ dialogue => Tallied dialogue) ?_ ?_ hrun
    · exact ⟨.inl ⟨rfl, rfl, rfl, rfl, rfl, rfl⟩, fun entry hentry => absurd hentry (by
        simp [dialogues]), fun n => by simp [dialogues]⟩
    · intro past dialogue event next ih henabled hconcludes hstep
      exact (tallied_step qrz others authenticated ih henabled hstep).1 hconcludes
  refine ⟨htallied.bounded, fun event next henabled hstep => ?_⟩
  obtain ⟨hkept, hbroken⟩ := tallied_step qrz others authenticated htallied henabled hstep
  cases hconcludes : concludes qrz dialogue event with
  | true => exact ⟨fun _ => rfl, fun _ => (hkept hconcludes).bounded⟩
  | false => exact ⟨fun hbounded => absurd hbounded (hbroken hconcludes),
      fun hfalse => absurd hfalse Bool.false_ne_true⟩

/-- A service that answers the request for a key with a key, and no other. -/
def sampleService : QRZ Unit :=
  { sampleQrz with
    parse xml := if xml = bytes "key" then { key := some (bytes "k") }
      else { callsign := some (bytes "fname", bytes "name") } }

/-- A request with an exchange for a key and one for the call sign. -/
def keyEvents : List (Event Unit) :=
  [.read lookup, .complete 0 {}, .complete 0 {},
    .complete 0 { received := crlf ++ crlf ++ bytes "key" },
    .complete 0 {}, .complete 0 {}, .complete 0 {}]

theorem bounded_keyEvents : ∃ dialogue : Dialogue Unit,
    dialogue.exchanges = [some 0, some 0] ∧ Bounded dialogue := by
  have hexec : (System.exec (sampleService.dialogues [] (fun _ => true) ())
      (concludes sampleService) { session := Session.start { env := () } } keyEvents).any
        (fun dialogue => dialogue.exchanges = [some 0, some 0]) = true := by decide +kernel
  obtain ⟨dialogue, hrun, hexchanges⟩ := System.exists_run_of_exec hexec
  exact ⟨dialogue, of_decide_eq_true hexchanges,
    (bounded_of_concludes sampleService [] (fun _ => true) () keyEvents dialogue hrun).1⟩

/-- A service whose documents hold a key, but neither an error nor a call sign. -/
def silentService : QRZ Unit := { sampleQrz with parse _ := { key := some (bytes "k") } }

def silentEvents : List (Event Unit) := .read lookup :: List.replicate 6 (.complete 0 {})

theorem not_bounded_silent :
    ¬ ∀ (qrz : QRZ Unit) (others : List (Responder Unit Unit)) (authenticated : Unit → Bool)
      (events : List (Event Unit)) (dialogue : Dialogue Unit),
      (qrz.dialogues others authenticated ()).Run (fun _ _ => true) events dialogue →
        Bounded dialogue := by
  intro h
  have hexec : (System.exec (silentService.dialogues [] (fun _ => true) ()) (fun _ _ => true)
      { session := Session.start { env := () } } silentEvents).any
        (fun dialogue => dialogue.exchanges.count (some 0) = 3) = true := by decide +kernel
  obtain ⟨dialogue, hrun, hcount⟩ := System.exists_run_of_exec hexec
  have hbounded := h silentService [] (fun _ => true) silentEvents dialogue hrun 0
  rw [of_decide_eq_true hcount] at hbounded
  exact absurd hbounded (by decide)

end Hamlog.Server.QRZ
