import Hamlog.Server.SessionOrder

/-! # How often a session stops

The whole life of a session: besides the events of its requests and replies, a
read can end with an error, which stops the session, and after `stop` has closed
the socket no read ends in another way. A byte that the parser refuses stops the
session inside the loop of `handleRead`, which only the `break` of that branch
leaves: the read behind the loop is started all the same.
-/
namespace Hamlog.Server
open Foundation Wire RequestParser

namespace Session
variable {μ : Type*} (handler : RequestHandler μ)

/-- The parser refuses a byte, `stop` notifies the modules and emits `onStopped`, a read is
started. -/
inductive Effect where
  | refused
  | stopped
  | readStarted
  deriving DecidableEq, Repr

/-- The effects of `readLoop` in their order. -/
def loopEffects : ℕ → Session μ → List Effect
  | 0, _ => []
  | fuel + 1, session =>
    if session.parsedTotal = session.buffer.length then [.readStarted]
    else
      let parsed := RequestParser.parse session.parser session.req
        (session.buffer.drop session.parsedTotal)
      let session := session.advance parsed
      if parsed.1 = 0 then [.refused, .stopped, .readStarted]
      else if session.req.finished then
        let id := session.replies.length
        let session := session.dispatch handler
        if (session.replies.getD id {}).async then []
        else loopEffects fuel (session.writeReply id)
      else loopEffects fuel session

def handleReadEffects (session : Session μ) : List Effect :=
  session.loopEffects handler (session.buffer.length - session.parsedTotal + 1)

/-- The effects of a step. -/
def stepEffects (session : Session μ) : Event μ → List Effect
  | .read data => { session with reads := session.reads - 1, buffer := data }.handleReadEffects handler
  | .change _ => []
  | .complete modules reply =>
    match session.currentReply with
    | none => []
    | some id =>
      ({ session with modules, replies := session.replies.set id reply }.sendCurrent
        id).handleReadEffects handler

/-- A session and all its effects so far. -/
structure Life (μ : Type*) where
  session : Session μ
  log : List Effect

inductive LifeEvent (μ : Type*) where
  | happens (event : Event μ)
  | readFailed

/-- `stop` closes the socket, and a read that is started on a closed socket ends with an error. -/
def lifeSystem (modules : μ) : System (Life μ) (LifeEvent μ) where
  start := ⟨start modules, [.readStarted]⟩
  enabled
    | life, .happens (.read data) => life.session.stops = 0 && life.session.enabled (.read data)
    | life, .happens event => life.session.enabled event
    | life, .readFailed => life.session.reads ≠ 0
  step
    | life, .happens event => (life.session.step handler event).map fun session =>
        ⟨session, life.log ++ life.session.stepEffects handler event⟩
    | life, .readFailed =>
      some ⟨{ life.session with reads := life.session.reads - 1 }.stop, life.log ++ [.stopped]⟩

/-- The bytes that the events bring. -/
def lifeFed (events : List (LifeEvent μ)) : Bytes :=
  events.flatMap fun
    | .happens event => fed [event]
    | .readFailed => []

/-- Behind a refused byte no read is started, and `stop` runs at most once. -/
def StopsOnce (log : List Effect) : Prop :=
  (∀ front back, log = front ++ .refused :: back → .readStarted ∉ back) ∧ log.count .stopped ≤ 1

/-- A turn of the loop goes on, or its end is one of three; the session counts its effects. -/
theorem loopEffects_cases (fuel : ℕ) (session : Session μ) :
    let effects := session.loopEffects handler fuel
    (session.readLoop handler fuel).reads = session.reads + effects.count .readStarted ∧
      (session.readLoop handler fuel).stops = session.stops + effects.count .stopped ∧
      (effects = [] ∨ effects = [.readStarted] ∨ effects = [.refused, .stopped, .readStarted]) := by
  induction fuel generalizing session with
  | zero => exact ⟨rfl, rfl, .inl rfl⟩
  | succ fuel ih =>
    simp only [readLoop, loopEffects]
    split_ifs
    · exact ⟨rfl, rfl, .inr (.inl rfl)⟩
    · exact ⟨rfl, rfl, .inr (.inr rfl)⟩
    · exact ⟨rfl, rfl, .inl rfl⟩
    · exact ih _
    · exact ih _

/-- The life of a session that has received `stream`: it is open, it was stopped by the end of its
connection, or the parser has refused a byte. -/
inductive Lived (stream : Bytes) : Life μ → Prop where
  | open_ {session log} : session.Settled stream → session.stops = 0 → .refused ∉ log →
      .stopped ∉ log → Lived stream ⟨session, log⟩
  | closed {session log} : Accepted stream → session.reads = 0 → session.currentReply = none →
      .refused ∉ log → log.count .stopped = 1 → Lived stream ⟨session, log⟩
  | refused {session front back} : ¬Accepted stream → session.stops ≠ 0 →
      session.currentReply = none → .readStarted ∈ back →
      Lived stream ⟨session, front ++ .refused :: back⟩

theorem Turning.lived {session : Session μ} {stream : Bytes} (h : session.Turning stream)
    (hle : session.parsedTotal ≤ session.buffer.length) (hstops : session.stops = 0)
    {log : List Effect} (hrefused : .refused ∉ log) (hstopped : .stopped ∉ log) :
    Lived stream ⟨session.handleRead handler, log ++ session.handleReadEffects handler⟩ := by
  obtain ⟨-, hcount, heffects⟩ := loopEffects_cases handler
    (session.buffer.length - session.parsedTotal + 1) session
  rw [← Session.handleRead, ← Session.handleReadEffects] at hcount
  rw [← Session.handleReadEffects] at heffects
  rcases h.loopEnd handler hle with ⟨hsettled, hsame⟩ | ⟨hnot, hmore, hcurrent⟩
  · rw [hsame] at hcount
    refine .open_ hsettled (hsame.trans hstops) ?_ ?_ <;>
    · rcases heffects with heffects | heffects | heffects
      · simpa [heffects]
      · simpa [heffects]
      · simp [heffects] at hcount
  · rw [hmore] at hcount
    rcases heffects with heffects | heffects | heffects
    · simp [heffects] at hcount
    · simp [heffects] at hcount
    · rw [heffects]
      exact .refused hnot (by omega) hcurrent (by simp)

theorem lifeFed_append (past : List (LifeEvent μ)) (event : LifeEvent μ) :
    lifeFed (past ++ [event]) = lifeFed past ++ lifeFed [event] := by
  simp [lifeFed]

theorem Settled.accepted {session : Session μ} {stream : Bytes} (h : session.Settled stream)
    (hcurrent : session.currentReply = none) : Accepted stream := by
  rcases h with ⟨-, -, -, hparsed, -⟩ | ⟨n, parsed, hn, -⟩
  · obtain ⟨messages, hfeed, -⟩ := hparsed.feed
    exact ⟨_, by rw [hfeed]⟩
  · exact absurd (hcurrent.symm.trans hn) (by simp)

/-- One event of a life. -/
theorem lived_step {stream : Bytes} {life next : Life μ} {event : LifeEvent μ} {modules : μ}
    (h : Lived stream life) (henabled : (lifeSystem handler modules).enabled life event)
    (hstep : (lifeSystem handler modules).step life event = some next) :
    Lived (stream ++ lifeFed [event]) next := by
  have hsame (other : Event μ) (hother : fed [other] = []) :
      stream ++ lifeFed [.happens other] = stream := by simp [lifeFed, hother]
  cases h with
  | @open_ session log hsettled hstops hrefused hstopped =>
    cases event with
    | readFailed =>
      cases hstep
      have hreads : session.reads ≠ 0 := of_decide_eq_true henabled
      rcases hsettled with ⟨hcurrent, hone, htotal, hparsed, hwrote⟩ | ⟨n, parsed, -, hzero, -⟩
      · have hok : Accepted stream :=
          Settled.accepted (.inl ⟨hcurrent, hone, htotal, hparsed, hwrote⟩)
          hcurrent
        refine .closed (by simpa [lifeFed] using hok) (by simp [stop, hone]) hcurrent (by simpa) ?_
        rw [List.count_append, List.count_eq_zero_of_not_mem hstopped]
        rfl
      · exact absurd hzero hreads
    | happens event =>
      obtain ⟨after, hafter, rfl⟩ := Option.map_eq_some_iff.mp hstep
      cases event with
      | read data =>
        cases hafter
        obtain ⟨-, hread⟩ := Bool.and_eq_true_iff.mp henabled
        obtain ⟨hreads, -, -⟩ := of_decide_eq_true hread
        obtain ⟨hturning, htotal⟩ := hsettled.read hreads data
        have hfed : stream ++ lifeFed [.happens (.read data : Event μ)] = stream ++ data := by
          simp [lifeFed, fed]
        rw [hfed]
        exact hturning.lived handler (by simp [htotal]) hstops hrefused hstopped
      | change other =>
        cases hafter
        rw [hsame _ rfl]
        exact .open_ (hsettled.change other) hstops (by simpa [stepEffects])
          (by simpa [stepEffects])
      | complete other reply =>
        obtain ⟨n, hcurrent⟩ : ∃ n, session.currentReply = some n :=
          Option.isSome_iff_exists.mp henabled
        obtain ⟨hturning, hle⟩ := hsettled.complete hcurrent other reply
        simp only [step, sendAsyncReply, hcurrent, Option.some.injEq] at hafter
        subst hafter
        rw [hsame _ rfl]
        simp only [stepEffects, hcurrent]
        exact hturning.lived handler hle hstops hrefused hstopped
  | closed hok hreads hcurrent hrefused hstopped =>
    cases event with
    | readFailed => exact absurd hreads (of_decide_eq_true henabled)
    | happens event =>
      obtain ⟨after, hafter, rfl⟩ := Option.map_eq_some_iff.mp hstep
      cases event with
      | read data =>
        obtain ⟨-, hread⟩ := Bool.and_eq_true_iff.mp henabled
        exact absurd hreads (of_decide_eq_true hread).1
      | change other =>
        cases hafter
        rw [hsame _ rfl]
        exact .closed hok hreads hcurrent (by simpa [stepEffects]) (by simpa [stepEffects])
      | complete other reply => simp [lifeSystem, enabled, hcurrent] at henabled
  | @refused session front back hnot hstops hcurrent hstarted =>
    have hstill (rest : Bytes) : ¬Accepted (stream ++ rest) := fun hok => hnot hok.prefix_ok
    cases event with
    | readFailed =>
      cases hstep
      rw [List.append_assoc, List.cons_append]
      exact .refused (hstill _) (by simp [stop]) hcurrent (List.mem_append_left _ hstarted)
    | happens event =>
      obtain ⟨after, hafter, rfl⟩ := Option.map_eq_some_iff.mp hstep
      cases event with
      | read data =>
        obtain ⟨hopen, -⟩ := Bool.and_eq_true_iff.mp henabled
        exact absurd (of_decide_eq_true hopen) hstops
      | change other =>
        cases hafter
        rw [stepEffects, List.append_nil]
        exact .refused (hstill _) hstops hcurrent hstarted
      | complete other reply => simp [lifeSystem, enabled, hcurrent] at henabled

theorem lived_run {modules : μ} {events : List (LifeEvent μ)} {life : Life μ}
    (hrun : (lifeSystem handler modules).Run (fun _ _ => true) events life) :
    Lived (lifeFed events) life := by
  refine System.Run.invariant (I := fun past life => Lived (lifeFed past) life) ?_ ?_ hrun
  · exact .open_ (settled_start modules) rfl (by decide) (by decide)
  · intro past life event next ih henabled _ hstep
    rw [lifeFed_append]
    exact lived_step handler ih henabled hstep

theorem stopsOnce_of_notMem {log : List Effect} (hrefused : .refused ∉ log)
    (hcount : log.count .stopped ≤ 1) : StopsOnce log :=
  ⟨fun front back hsplit => absurd (hsplit ▸ by simp) hrefused, hcount⟩

/-- In every life whose bytes the parser accepts, the session stops at most once and reads no more
behind a refusal. A session that waits for no reply has done so only if its bytes were accepted. -/
theorem stopsOnce_accepted (modules : μ) (events : List (LifeEvent μ)) (life : Life μ)
    (hrun : (lifeSystem handler modules).Run (fun _ _ => true) events life) :
    (Accepted (lifeFed events) → StopsOnce life.log) ∧
      (life.session.currentReply = none → StopsOnce life.log → Accepted (lifeFed events)) := by
  cases lived_run handler hrun with
  | open_ hsettled hstops hrefused hstopped =>
    refine ⟨fun _ => stopsOnce_of_notMem hrefused ?_, fun hcurrent _ => hsettled.accepted hcurrent⟩
    rw [List.count_eq_zero_of_not_mem hstopped]
    exact Nat.zero_le 1
  | closed hok hreads hcurrent hrefused hstopped =>
    exact ⟨fun _ => stopsOnce_of_notMem hrefused hstopped.le, fun _ _ => hok⟩
  | refused hnot hstops hcurrent hstarted =>
    exact ⟨fun hok => absurd hok hnot, fun _ honce => absurd hstarted (honce.1 _ _ rfl)⟩

/-- A request, the end of the connection, and no further event. -/
theorem stopsOnce_accepted_closed : ∃ life : Life Unit,
    (lifeSystem alternating ()).Run (fun _ _ => true)
      [.happens (.read (bytes "GET / HTTP/1.1\r\n\r\n")), .readFailed] life ∧
      StopsOnce life.log := by
  have hexec : ((lifeSystem alternating ()).exec (fun _ _ => true) (lifeSystem alternating ()).start
      [.happens (.read (bytes "GET / HTTP/1.1\r\n\r\n")), .readFailed]).isSome = true := by decide
  obtain ⟨life, hlife⟩ := Option.isSome_iff_exists.mp hexec
  have hrun := System.run_of_exec hlife
  exact ⟨life, hrun, (stopsOnce_accepted alternating () _ life hrun).1 ⟨_, rfl⟩⟩

/-- The parser refuses the first byte: the session stops, a read is started on the closed socket, and
its end stops the session a second time. -/
theorem not_stopsOnce_refused : ¬∀ (handler : RequestHandler Unit) (modules : Unit)
    (events : List (LifeEvent Unit)) (life : Life Unit),
    (lifeSystem handler modules).Run (fun _ _ => true) events life → StopsOnce life.log := by
  intro hall
  have hexec : ((lifeSystem alternating ()).exec (fun _ _ => true) (lifeSystem alternating ()).start
      [.happens (.read [ch '@']), .readFailed]).any (fun life => decide (life.log =
        [.readStarted, .refused, .stopped, .readStarted, .stopped])) = true := by decide
  obtain ⟨life, hrun, hlog⟩ := System.exists_run_of_exec hexec
  have honce := hall alternating () _ life hrun
  rw [of_decide_eq_true hlog] at honce
  exact honce.1 [.readStarted] [.stopped, .readStarted, .stopped] rfl (by decide)

end Session
end Hamlog.Server
