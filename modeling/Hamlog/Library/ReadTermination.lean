import Hamlog.Foundation.Loop
import Hamlog.Library.BufferBounds
import Hamlog.Library.ReadBuffer
import Hamlog.Library.ReadLoop

/-! # The end of the read loop

The guard of the loop in `ham_connection_read_data` is passed only on the last
byte of the read. The parser may take the cursor over it, and then has nothing
left to parse, which disconnects. A turn that goes on consumes a byte, so the
loop has an end in at most as many turns as there are bytes. It is not the end
that was meant when the parser stores outside of its buffers on the way.
-/
namespace Hamlog.Library
open Foundation Wire

/-- What the loop changes, with the events so far. -/
structure ReadState where
  connection : HAMConnection
  parsedTotal : ℕ := 0
  events : List Event := []

def readTurns (env : Environment) (data : Bytes) : Loop ReadState ReadState Halt where
  guard s := s.parsedTotal ≠ data.length - 1
  body s :=
    match hamParserParse s.connection.parser s.connection.reply (data.drop s.parsedTotal) with
    | none => .error .outOfBounds
    | some (parsed, parser, reply) =>
      let connection := { s.connection with parser, reply }
      if parsed = 0 then
        let closed := refuse connection s.parsedTotal
        .ok (.inr ⟨closed.1, s.parsedTotal, s.events ++ closed.2.2⟩)
      else
        let delivered := handleParsed env connection
        .ok (.inl ⟨delivered.1, s.parsedTotal + parsed, s.events ++ delivered.2⟩)

def endResult : Loop.End ReadState ReadState Halt → Except Halt (HAMConnection × ℕ × List Event)
  | .passed s => .ok (s.connection, s.parsedTotal, s.events)
  | .left s => .ok (s.connection, s.parsedTotal, s.events)
  | .fault halt => .error halt

section Turns
variable {env : Environment} {data : Bytes} {s t : ReadState} {n : ℕ}
  {e : Loop.End ReadState ReadState Halt}

theorem readTurns_guard : (readTurns env data).guard s = true ↔ s.parsedTotal ≠ data.length - 1 :=
  decide_eq_true_iff

theorem body_fault (hparse : hamParserParse s.connection.parser s.connection.reply
      (data.drop s.parsedTotal) = none) :
    (readTurns env data).body s = .error .outOfBounds := by
  simp only [readTurns, hparse]

theorem body_refuse {parser : HAMParser} {reply : HAMReply}
    (hparse : hamParserParse s.connection.parser s.connection.reply
      (data.drop s.parsedTotal) = some (0, parser, reply)) :
    (readTurns env data).body s =
      let closed := refuse { s.connection with parser, reply } s.parsedTotal
      .ok (.inr ⟨closed.1, s.parsedTotal, s.events ++ closed.2.2⟩) := by
  simp only [readTurns, hparse, if_true]

theorem body_turn {parsed : ℕ} (hparsed : parsed ≠ 0) {parser : HAMParser} {reply : HAMReply}
    (hparse : hamParserParse s.connection.parser s.connection.reply
      (data.drop s.parsedTotal) = some (parsed, parser, reply)) :
    (readTurns env data).body s =
      let delivered := handleParsed env { s.connection with parser, reply }
      .ok (.inl ⟨delivered.1, s.parsedTotal + parsed, s.events ++ delivered.2⟩) := by
  simp only [readTurns, hparse, if_neg hparsed]

variable (env data s) in
/-- What a turn comes from: it faults in the parser, consumes something, or disconnects. -/
theorem body_inv :
    match (readTurns env data).body s with
    | .error halt => halt = .outOfBounds ∧ hamParserParse s.connection.parser s.connection.reply
        (data.drop s.parsedTotal) = none
    | .ok (.inr r) => ∃ parser reply, hamParserParse s.connection.parser s.connection.reply
        (data.drop s.parsedTotal) = some (0, parser, reply) ∧
      r = ⟨(refuse { s.connection with parser, reply } s.parsedTotal).1, s.parsedTotal,
        s.events ++ (refuse { s.connection with parser, reply } s.parsedTotal).2.2⟩
    | .ok (.inl t) => ∃ parsed parser reply, parsed ≠ 0 ∧
      hamParserParse s.connection.parser s.connection.reply
        (data.drop s.parsedTotal) = some (parsed, parser, reply) ∧
      t = ⟨(handleParsed env { s.connection with parser, reply }).1, s.parsedTotal + parsed,
        s.events ++ (handleParsed env { s.connection with parser, reply }).2⟩ := by
  cases hparse : hamParserParse s.connection.parser s.connection.reply
      (data.drop s.parsedTotal) with
  | none =>
    rw [body_fault hparse]
    exact ⟨rfl, rfl⟩
  | some result =>
    obtain ⟨parsed, parser, reply⟩ := result
    by_cases hzero : parsed = 0
    · subst hzero
      rw [body_refuse hparse]
      exact ⟨parser, reply, rfl, rfl⟩
    · rw [body_turn hzero hparse]
      exact ⟨parsed, parser, reply, hzero, rfl, rfl⟩

theorem parsedTotal_turn (hle : s.parsedTotal ≤ data.length)
    (hbody : (readTurns env data).body s = .ok (.inl t)) :
    s.parsedTotal < t.parsedTotal ∧ t.parsedTotal ≤ data.length := by
  have hturn := body_inv env data s
  rw [hbody] at hturn
  obtain ⟨parsed, parser, reply, hne, hparse, rfl⟩ := hturn
  have hparsed := parseFrom_le hparse
  rw [zero_add, List.length_drop] at hparsed
  dsimp only
  omega

theorem parsedTotal_le (connection : HAMConnection)
    (h : (readTurns env data).After { connection } n t) : t.parsedTotal ≤ data.length :=
  h.invariant (I := fun s => s.parsedTotal ≤ data.length) (Nat.zero_le _)
    fun _ _ hle _ hbody => (parsedTotal_turn hle hbody).2

theorem readTurns_ends (env : Environment) (connection : HAMConnection) (hne : data ≠ []) :
    ∃ n ≤ data.length, ∃ e, (readTurns env data).Ends { connection } n e := by
  have hlen := List.length_pos_of_ne_nil hne
  -- The cursor behind the last byte needs a turn, the one on it none.
  let rank (s : ReadState) : ℕ := max 1 (data.length - s.parsedTotal)
  have hrank : rank { connection } = data.length := max_eq_right hlen
  rw [← hrank]
  refine Loop.exists_ends_of_rank (I := fun s => s.parsedTotal ≤ data.length) rank
    (fun t _ _ => lt_max_of_lt_left one_pos) (fun t u hle hguard hbody => ?_) (Nat.zero_le _)
  obtain ⟨hlt, hin⟩ := parsedTotal_turn hle hbody
  rw [readTurns_guard] at hguard
  refine ⟨hin, ?_⟩
  simp only [rank]
  omega

/-- With fuel for its turns, `readLoop` is the loop. -/
theorem readLoop_of_ends (h : (readTurns env data).Ends s n e) {fuel : ℕ} (hfuel : n < fuel) :
    prepend s.events (readLoop env fuel s.connection data s.parsedTotal) = endResult e := by
  induction h generalizing fuel with
  | @passed s hguard =>
    obtain ⟨fuel, rfl⟩ := Nat.exists_eq_add_of_lt hfuel
    rw [← Bool.not_eq_true, readTurns_guard, not_not] at hguard
    rw [readLoop_end env _ _ hguard, prepend, List.append_nil, endResult]
  | @left s r hguard hbody =>
    obtain ⟨fuel, rfl⟩ := Nat.exists_eq_add_of_lt hfuel
    have hlast := body_inv env data s
    rw [hbody] at hlast
    obtain ⟨parser, reply, hparse, rfl⟩ := hlast
    rw [readLoop_turn env _ _ (readTurns_guard.mp hguard) hparse, if_pos rfl]
    rfl
  | @fault s halt hguard hbody =>
    obtain ⟨fuel, rfl⟩ := Nat.exists_eq_add_of_lt hfuel
    have hlast := body_inv env data s
    rw [hbody] at hlast
    obtain ⟨rfl, hparse⟩ := hlast
    rw [readLoop, if_neg (readTurns_guard.mp hguard), hparse]
    rfl
  | @turn s t n e hguard hbody _ ih =>
    obtain ⟨fuel, rfl⟩ := Nat.exists_eq_add_of_lt hfuel
    have hturn := body_inv env data s
    rw [hbody] at hturn
    obtain ⟨parsed, parser, reply, hne, hparse, rfl⟩ := hturn
    have hrest := ih (show n < n + 1 + fuel by omega)
    rw [readLoop_turn env _ _ (readTurns_guard.mp hguard) hparse, if_neg hne, ← hrest]
    exact prepend_append _ _ _

theorem readLoopAt_of_ends {connection : HAMConnection}
    (h : (readTurns env data).Ends { connection } n e) (hne : data ≠ [])
    (hlen : data.length < 2 ^ 64) (rest : Bytes) {fuel : ℕ} (hfuel : n < fuel) :
    readLoopAt env (data ++ 0 :: rest) data.length fuel connection 0 =
      (endResult e).mapError Halt.toFault := by
  have hloop := readLoop_of_ends h hfuel
  rw [prepend_nil] at hloop
  rw [readLoopAt_eq env hne hlen rest fuel connection (Nat.zero_le _), hloop]

end Turns

/-! ## The bytes that make the parser store outside of its buffers -/

/-- The unread bytes bring the parser to a store outside of its buffers: in the parse from where it
stands, or, when that finishes a reply or rejects a byte, in what is read anew from that byte on. A
last byte is not parsed, and a parse that ends on its first byte is the last one. -/
inductive Strays : HAMParser → HAMReply → Bytes → Prop
  | stored {p r data s rest} : data.length ≠ 1 →
      (decoder declared).parse (p, r) data = .fail s .fault rest → Strays p r data
  | finished {p r data q s rest} : data.length ≠ 1 → rest.length + 1 < data.length →
      (decoder declared).parse (p, r) data = .done (q, s) rest →
      Strays q {} (ch '\n' :: rest) → Strays p r data
  | rejected {p r data q s rest} : data.length ≠ 1 → rest.length < data.length →
      (decoder declared).parse (p, r) data = .fail (q, s) .rejected rest →
      Strays (hamParserReset q) s rest → Strays p r data

theorem strays_iff (p : HAMParser) (r : HAMReply) (data : Bytes) :
    Strays p r data ↔ data.length ≠ 1 ∧
      match (decoder declared).parse (p, r) data with
      | .more _ => False
      | .done s rest => rest.length + 1 < data.length ∧ Strays s.1 {} (ch '\n' :: rest)
      | .fail _ .fault _ => True
      | .fail s .rejected rest =>
        rest.length < data.length ∧ Strays (hamParserReset s.1) s.2 rest := by
  constructor
  · intro h
    cases h with
    | stored hone hparse => exact ⟨hone, by rw [hparse]; trivial⟩
    | finished hone hlen hparse hrest => exact ⟨hone, by rw [hparse]; exact ⟨hlen, hrest⟩⟩
    | rejected hone hlen hparse hrest => exact ⟨hone, by rw [hparse]; exact ⟨hlen, hrest⟩⟩
  · rintro ⟨hone, h⟩
    cases hparse : (decoder declared).parse (p, r) data with
    | more s => simp [hparse] at h
    | done s rest =>
      rw [hparse] at h
      exact .finished hone h.1 hparse h.2
    | fail s stop rest =>
      rw [hparse] at h
      cases stop with
      | fault => exact .stored hone hparse
      | rejected => exact .rejected hone h.1 hparse h.2

/-- With the parser idle, replies with a text that is too long for its buffer make it stray. -/
theorem strays_of_overlong {p : HAMParser} (hp : p.Idle) {r : HAMReply} (hr : r.finished = false)
    {data : Bytes} (h : Overlong r.headers data) : Strays p r data := by
  have hfault := fault_of_overlong h hp hr rfl
  clear h
  induction hlen : data.length using Nat.strong_induction_on generalizing p r data with
  | _ n ih =>
    subst hlen
    rw [Decoder.feed_eq_parse] at hfault
    cases hparse : (decoder declared).parse (p, r) data with
    | more s => simp [hparse] at hfault
    | done s rest =>
      obtain ⟨q, s⟩ := s
      obtain ⟨-, hq, front, hne, rfl⟩ := parse_done_idle hp hr hparse
      have hpos := List.length_pos_of_ne_nil hne
      have hlead := (decoder declared).feed_append
        ((decoder declared).feed_of_more (parse_lead (.inr rfl) hq (r := {}) rfl)) rest
      have hbehind : ((decoder declared).feed (q, {}) (ch '\n' :: rest)).2 = .error .fault := by
        rw [hparse] at hfault
        rw [← List.singleton_append, hlead]
        exact hfault
      refine .finished (by simp; omega) (by simp; omega) hparse (ih _ ?_ hq rfl hbehind rfl)
      rw [List.length_append]
      omega
    | fail s stop rest =>
      rw [hparse] at hfault
      obtain rfl : stop = .fault := by simpa using hfault
      obtain ⟨front, c, behind, rfl, rfl, hfront, hstep⟩ := (decoder declared).fail_last hparse
      refine .stored (fun hone => ?_) hparse
      -- The only byte would be one that the parser reads from its start.
      have hnil : front = [] := List.length_eq_zero_iff.mp (by simp at hone; omega)
      rw [hnil, Decoder.parse_nil, Outcome.more.injEq] at hfront
      obtain rfl := hfront
      have hconsume : hamParserConsume declared p r c = .error .fault := hstep
      rw [hamParserConsume, hp.state_eq] at hconsume
      simp only [consumeIf] at hconsume
      split_ifs at hconsume
      cases hconsume

theorem faults_iff_strays (env : Environment) {data : Bytes} (hne : data ≠ []) {s : ReadState}
    (hr : s.connection.reply.finished = false) (hle : s.parsedTotal ≤ data.length) :
    (readTurns env data).Faults s ↔
      Strays s.connection.parser s.connection.reply (data.drop s.parsedTotal) := by
  have hpos := List.length_pos_of_ne_nil hne
  induction hleft : data.length - s.parsedTotal using Nat.strong_induction_on generalizing s with
  | _ left ih =>
    subst hleft
    have hlen : (data.drop s.parsedTotal).length = data.length - s.parsedTotal := List.length_drop
    rw [strays_iff]
    by_cases hend : s.parsedTotal = data.length - 1
    · have hpassed : (readTurns env data).guard s = false := by
        rw [← Bool.not_eq_true, readTurns_guard, not_not, hend]
      exact iff_of_false (Loop.not_faults_of_ends (.passed hpassed) (by simp))
        fun h => h.1 (by omega)
    have hguard : (readTurns env data).guard s = true := readTurns_guard.mpr hend
    rw [and_iff_right (by omega)]
    -- A turn that consumes nothing is the last one.
    have hrefuse {parser : HAMParser} {reply : HAMReply} (hparse : hamParserParse
        s.connection.parser s.connection.reply (data.drop s.parsedTotal) =
          some (0, parser, reply)) : ¬(readTurns env data).Faults s :=
      Loop.not_faults_of_ends (.left hguard (body_refuse hparse)) (by simp)
    have hturn {parsed : ℕ} (hparsed : parsed ≠ 0) (hin : parsed ≤ data.length - s.parsedTotal)
        {parser : HAMParser} {reply : HAMReply} (hparse : hamParserParse s.connection.parser
          s.connection.reply (data.drop s.parsedTotal) = some (parsed, parser, reply))
        (hnext : (handleParsed env { s.connection with parser, reply }).1.reply.finished = false) :
        (readTurns env data).Faults s ↔
          Strays (handleParsed env { s.connection with parser, reply }).1.parser
            (handleParsed env { s.connection with parser, reply }).1.reply
            (data.drop (s.parsedTotal + parsed)) := by
      rw [Loop.faults_turn_iff hguard (body_turn hparsed hparse)]
      exact ih _ (by dsimp only; omega) hnext (by dsimp only; omega) rfl
    cases hparse : (decoder declared).parse (s.connection.parser, s.connection.reply)
        (data.drop s.parsedTotal) with
    | more t =>
      obtain ⟨q, t⟩ := t
      have ht : t.finished = false := (decoder declared).more_unfinished
        (s := (s.connection.parser, s.connection.reply)) hr hparse
      have hsome : hamParserParse s.connection.parser s.connection.reply
          (data.drop s.parsedTotal) = some (data.length - s.parsedTotal, q, t) := by
        rw [hamParserParse_eq, hparse, hlen]
      refine iff_of_false ?_ id
      by_cases hzero : data.length - s.parsedTotal = 0
      · exact hrefuse (hzero ▸ hsome)
      · rw [hturn hzero le_rfl hsome (by simp [handleParsed, ht]), Nat.add_sub_cancel' hle,
          List.drop_length, strays_iff]
        simp
    | done t rest =>
      obtain ⟨q, t⟩ := t
      obtain ⟨ht, hq, front, hsplit, -⟩ := parse_done_lineFeed hr hparse
      have hcount := congrArg List.length hsplit
      rw [hlen, List.length_append, List.length_cons] at hcount
      have hsome : hamParserParse s.connection.parser s.connection.reply
          (data.drop s.parsedTotal) = some (front.length, q, t) := by
        rw [hamParserParse_eq, hparse, hlen]
        simp only [Option.some.injEq, Prod.mk.injEq, and_true]
        omega
      by_cases hzero : front.length = 0
      · exact iff_of_false (hrefuse (hzero ▸ hsome)) fun h => absurd h.1 (by omega)
      · obtain ⟨hparser, hreply⟩ :=
          deliver_keeps env { s.connection with parser := q, reply := t }
        have hhandled : handleParsed env { s.connection with parser := q, reply := t } =
            deliver env { s.connection with parser := q, reply := t } := by
          simp [handleParsed, ht]
        have hnext : data.drop (s.parsedTotal + front.length) = ch '\n' :: rest := by
          rw [← List.drop_drop, hsplit, List.drop_left]
        rw [hturn hzero (by omega) hsome (by rw [hhandled, hreply]), hhandled, hparser, hreply,
          hnext]
        exact (and_iff_right (by omega)).symm
    | fail t stop rest =>
      obtain ⟨q, t⟩ := t
      cases stop with
      | fault =>
        have hnone : hamParserParse s.connection.parser s.connection.reply
            (data.drop s.parsedTotal) = none := by
          rw [hamParserParse_eq, hparse]
        exact iff_of_true ⟨1, _, .fault hguard (body_fault hnone)⟩ trivial
      | rejected =>
        have ht : t.finished = false := (decoder declared).fail_unfinished
          (s := (s.connection.parser, s.connection.reply)) hr hparse
        obtain ⟨front, -, -, -, hsplit, -, -⟩ := (decoder declared).fail_last hparse
        have hcount := congrArg List.length hsplit
        rw [hlen, List.length_append] at hcount
        have hsome : hamParserParse s.connection.parser s.connection.reply
            (data.drop s.parsedTotal) = some (front.length, hamParserReset q, t) := by
          rw [hamParserParse_eq, hparse, hlen]
          simp only [Option.some.injEq, Prod.mk.injEq, and_true]
          omega
        by_cases hzero : front.length = 0
        · exact iff_of_false (hrefuse (hzero ▸ hsome)) fun h => absurd h.1 (by omega)
        · have hnext : data.drop (s.parsedTotal + front.length) = rest := by
            rw [← List.drop_drop, hsplit, List.drop_left]
          rw [hturn hzero (by omega) hsome (by simp [handleParsed, ht]), hnext]
          simp only [handleParsed, ht, Bool.false_eq_true, if_false]
          exact (and_iff_right (by omega)).symm

/-! ## The end that is meant -/

/-- `ham_connection_disconnect` was called behind the report of malformed data. -/
def Disconnected (s : ReadState) : Prop :=
  ∃ before events, s.connection = (hamConnectionDisconnect before).1 ∧
    s.events = events ++ .signal .disconnected (bytes "Server sent mallformed data") ::
      (hamConnectionDisconnect before).2

/-- The loop ends on the last byte of the read, or by disconnecting. -/
def Orderly (data : Bytes) : Loop.End ReadState ReadState Halt → Prop
  | .passed s => s.parsedTotal = data.length - 1
  | .left s => s.parsedTotal ≤ data.length ∧ Disconnected s
  | .fault _ => False

/-- The loop over a read ends in order, in at most as many turns as there are bytes, and the cursor
never passes the end of the read. -/
structure EndsInTime (env : Environment) (connection : HAMConnection) (data : Bytes) : Prop where
  ends : ∃ n ≤ data.length, ∃ e, (readTurns env data).Ends { connection } n e ∧ Orderly data e
  cursor : ∀ n s, (readTurns env data).After { connection } n s → s.parsedTotal ≤ data.length

theorem orderly_of_ends {env : Environment} {connection : HAMConnection} {data : Bytes} {n : ℕ}
    {e : Loop.End ReadState ReadState Halt} (h : (readTurns env data).Ends { connection } n e)
    (he : ∀ halt, e ≠ .fault halt) : Orderly data e := by
  have hlast := h.last
  cases e with
  | passed s =>
    have hguard := hlast.2
    rwa [← Bool.not_eq_true, readTurns_guard, not_not] at hguard
  | left s =>
    obtain ⟨t, m, -, hafter, -, hbody⟩ := hlast
    have hleft := body_inv env data t
    rw [hbody] at hleft
    obtain ⟨parser, reply, -, rfl⟩ := hleft
    have hle : t.parsedTotal ≤ data.length := parsedTotal_le connection hafter
    exact ⟨hle, _, t.events, rfl, rfl⟩
  | fault halt => exact absurd rfl (he halt)

/-- In every case the loop comes to an end, in at most as many turns as there are bytes; the end is
the one that is meant if and only if the bytes do not make the parser stray. -/
theorem endsInTime_iff (env : Environment) {connection : HAMConnection}
    (hr : connection.reply.finished = false) {data : Bytes} (hne : data ≠ []) :
    (∃ n ≤ data.length, ∃ e, (readTurns env data).Ends { connection } n e) ∧
      (EndsInTime env connection data ↔ ¬Strays connection.parser connection.reply data) := by
  have hends := readTurns_ends env connection hne
  have hfaults := faults_iff_strays env hne (s := { connection }) hr (Nat.zero_le _)
  rw [List.drop_zero] at hfaults
  refine ⟨hends, ?_⟩
  rw [← hfaults]
  obtain ⟨n, hn, e, he⟩ := hends
  constructor
  · rintro ⟨⟨m, -, f, hf, horderly⟩, -⟩
    refine Loop.not_faults_of_ends hf fun halt hfault => ?_
    rw [hfault] at horderly
    exact horderly
  · intro hsafe
    refine ⟨⟨n, hn, e, he, orderly_of_ends he ?_⟩,
      fun m s hafter => parsedTotal_le connection hafter⟩
    rintro halt rfl
    exact hsafe ⟨n, halt, he⟩

theorem endsInTime_reply :
    EndsInTime (fun _ _ _ => []) { fd := 4 }
      (bytes "HTTP/1.1 200 OK\r\nContent-Length: 0\r\n\r\n") := by
  have hdone : ∃ s, (decoder declared).parse ({}, {})
      (bytes "HTTP/1.1 200 OK\r\nContent-Length: 0\r\n\r\n") = .done s [] := ⟨_, rfl⟩
  obtain ⟨s, hdone⟩ := hdone
  have hunfinished : ({ fd := 4 } : HAMConnection).reply.finished = false := rfl
  refine (endsInTime_iff (fun _ _ _ => []) hunfinished (by decide)).2.mpr ?_
  rw [strays_iff, hdone]
  rintro ⟨-, -, hrest⟩
  exact ((strays_iff _ _ _).mp hrest).1 rfl

/-- The header line that begins with a blank is stored through the null pointer. -/
theorem not_endsInTime_blank :
    ¬ ∀ env connection data, connection.reply.finished = false → data ≠ [] →
      EndsInTime env connection data := by
  intro h
  obtain ⟨⟨n, -, e, hends, horderly⟩, -⟩ := h (fun _ _ _ => []) { fd := 4 }
    (bytes "HTTP/1.1 200 OK\r\n X-Call: ok2jrq\r\n") rfl (by decide)
  have hnone : hamParserParse {} {} (bytes "HTTP/1.1 200 OK\r\n X-Call: ok2jrq\r\n") = none := by
    decide +kernel
  obtain ⟨-, rfl⟩ := hends.unique (.fault (readTurns_guard.mpr (by decide)) (body_fault hnone))
  exact horderly

end Hamlog.Library
