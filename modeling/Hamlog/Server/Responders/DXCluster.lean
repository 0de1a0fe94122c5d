import Hamlog.Foundation.Lines
import Hamlog.Foundation.Runs
import Hamlog.Server.Reply
import Hamlog.Server.RequestParser

/-! # The DX cluster module

The first `/dxcluster` request of a session connects to the cluster; the later
ones hand out the rows that were read since. A row is made of the tokens of a
line, and the tokenizer is given iterators into a string that ends with the
declaration, so a line that is taken for a spot is read from a destroyed text.
-/
namespace Hamlog.Server
open Foundation Wire

/-- `DXClusterModuleData` -/
structure DXClusterModuleData where
  pendingData : Bytes := []
  request : Bytes := []
  response : Bytes := []
  deriving DecidableEq

namespace DXCluster

/-! ## The lines of the cluster -/

/-- What the loop fails by: `substr` behind the end of the text, a token that is read from a
destroyed string, an erasure in an empty string, or more turns than it has fuel for. -/
inductive ReadFault where
  | outOfRange
  | destroyed
  | eraseEmpty
  | endless
  deriving DecidableEq, Repr

/-- The text in front of the first `"\r\n"`, or all of it. -/
def beforeCrlf : Bytes → Bytes
  | [] => []
  | c :: text => if crlf.isPrefixOf (c :: text) then [] else c :: beforeCrlf text

/-- The iterators that a tokenizer keeps: the text of a string, and whether it still lives. -/
structure TextRange where
  text : Bytes
  alive : Bool

/-- A string without a name is destroyed at the end of the declaration that it stands in. -/
def TextRange.temporary (text : Bytes) : TextRange := ⟨text, false⟩

/-- `boost::tokenizer` with the separator `" "`. In an empty range it finds no token. -/
structure Tokenizer where
  tokens : Bytes → List Bytes
  tokens_nil : tokens [] = []

/-- The tokens of a range. Those of an empty one are found without reading a byte. -/
def Tokenizer.read (tokenizer : Tokenizer) (range : TextRange) : Except ReadFault (List Bytes) :=
  if range.alive ∨ range.text = [] then .ok (tokenizer.tokens range.text) else .error .destroyed

/-- What the loop over `count` tokens appends from token `i` on. The tokens of the description, from
the third to the last but one, are separated by blanks. -/
def columns (count : ℕ) : ℕ → Bool → List Bytes → Bytes
  | _, _, [] => []
  | i, descDone, token :: tokens =>
    if i = 0 then token.dropLast ++ bytes ";" ++ columns count (i + 1) descDone tokens
    else if 3 ≤ i ∧ count - 1 ≠ i then token ++ bytes " " ++ columns count (i + 1) descDone tokens
    else if 3 ≤ i ∧ descDone = false then
      bytes ";" ++ (token ++ bytes ";") ++ columns count (i + 1) true tokens
    else token ++ bytes ";" ++ columns count (i + 1) descDone tokens

def spotColumns (tokens : List Bytes) : Bytes := columns tokens.length 0 false tokens

def isSpot (s : Bytes) : Bool := (bytes "DX").isPrefixOf s

section
variable (tokenizer : Tokenizer)

/-- A turn of the loop: the pending rows and the text behind it. -/
def lineTurn (pendingData s : Bytes) : Except ReadFault (Bytes × Bytes) :=
  if isSpot s then
    if s.length < 6 then .error .outOfRange
    else
      let s := s.drop 6
      (tokenizer.read (.temporary (beforeCrlf s))).bind fun tokens =>
        let row := pendingData ++ spotColumns tokens
        if row = [] then .error .eraseEmpty
        else .ok (row.dropLast ++ [lf], afterLine lf s)
  else .ok (pendingData, afterLine lf s)

def lineLoop : ℕ → Bytes → Bytes → Except ReadFault Bytes
  | 0, _, _ => .error .endless
  | fuel + 1, pendingData, s =>
    if lf ∉ s then .ok pendingData
    else (lineTurn tokenizer pendingData s).bind fun next => lineLoop fuel next.1 next.2

/-- The loop of `handleDXClusterRead` over the drained text `s`. Each turn shortens the text. -/
def readText (pendingData s : Bytes) : Except ReadFault Bytes :=
  lineLoop tokenizer (s.length + 1) pendingData s

end

/-! ## The module of a session -/

/-- An asynchronous operation on the socket to the cluster: `readSome` ends with the first bytes,
`readLine` when the buffer holds a line feed. -/
inductive Operation where
  | connect | write | readSome | readLine
  deriving DecidableEq, Repr

structure State where
  data : Option DXClusterModuleData := none
  operation : Option Operation := none
  crashed : Bool := false

def header : Bytes := bytes "sender;frequency;call;description;time\n"

def askDXCluster (state : State) (reply : Reply) : Reply × State :=
  match state.data with
  | some data =>
    (reply.setContent (header ++ data.pendingData),
      { state with data := some { data with pendingData := [] } })
  | none => (reply, { state with data := some {}, operation := some .connect })

def handleRequest (state : State) (request : Request) (reply : Reply) : Bool × Reply × State :=
  if request.uri = bytes "/dxcluster" then (true, askDXCluster state reply)
  else (false, reply, state)

def handleDXClusterConnected (username : Bytes) (state : State) (data : DXClusterModuleData)
    (failed : Bool) : State :=
  if failed then { state with operation := none }
  else
    { state with
      data := some { data with request := data.request ++ username ++ [lf] }
      operation := some .write }

/-- `sent` bytes of the request are taken from its buffer. -/
def handleDXClusterLogin (state : State) (data : DXClusterModuleData) (failed : Bool) (sent : ℕ) :
    State :=
  if failed then
    { state with
      data := some { data with request := data.request.drop sent }, operation := none }
  else { state with data := some { data with request := [] }, operation := some .readSome }

/-- An error of the loop ends the server. -/
def handleDXClusterRead (tokenizer : Tokenizer) (state : State) (data : DXClusterModuleData)
    (failed : Bool) : State :=
  if failed then { state with operation := none }
  else
    match readText tokenizer data.pendingData data.response with
    | .error _ => { state with data := some { data with response := [] }, crashed := true }
    | .ok pendingData =>
      { state with
        data := some { data with pendingData, response := [] }
        operation := some .readLine }

/-! ## Runs -/

inductive Event where
  | request (request : Request)
  | connected (failed : Bool)
  | written (failed : Bool) (sent : ℕ)
  | received (segment : Bytes)
  | disconnected

/-- The module of a session, with the bytes received so far, those of the unfinished line that were
drained from the buffer, and the replies to the `/dxcluster` requests. -/
structure Feed where
  state : State := {}
  stream : Bytes := []
  drained : Bytes := []
  replies : List Reply := []

namespace Feed

def data (feed : Feed) : DXClusterModuleData := feed.state.data.getD {}

def reads (feed : Feed) : Bool :=
  feed.state.operation = some .readSome || feed.state.operation = some .readLine

/-- Whether a segment completes the read under way. -/
def completes (feed : Feed) (segment : Bytes) : Bool :=
  feed.state.operation = some .readSome || decide (lf ∈ feed.data.response ++ segment)

def answer (feed : Feed) (request : Request) : Feed :=
  let handled := handleRequest feed.state request {}
  { feed with
    state := handled.2.2
    replies := if handled.1 then feed.replies ++ [handled.2.1] else feed.replies }

def receive (tokenizer : Tokenizer) (feed : Feed) (segment : Bytes) : Feed :=
  let data := { feed.data with response := feed.data.response ++ segment }
  let state := { feed.state with data := some data }
  let stream := feed.stream ++ segment
  if feed.completes segment then
    { feed with
      state := handleDXClusterRead tokenizer state data false
      stream
      drained := (splitLines lf feed.drained data.response).2 }
  else { feed with state, stream }

end Feed

/-- The feed of a session whose user has the name. -/
def system (tokenizer : Tokenizer) (username : Bytes) : System Feed Event where
  start := {}
  enabled feed event :=
    !feed.state.crashed &&
      match event with
      | .request _ => true
      | .connected _ => feed.state.operation = some .connect
      | .written _ _ => feed.state.operation = some .write
      | .received segment => feed.reads && segment ≠ []
      | .disconnected => feed.reads
  step feed event :=
    match event with
    | .request request => some (feed.answer request)
    | .connected failed =>
      some { feed with state := handleDXClusterConnected username feed.state feed.data failed }
    | .written failed sent =>
      some { feed with state := handleDXClusterLogin feed.state feed.data failed sent }
    | .received segment => some (feed.receive tokenizer segment)
    | .disconnected =>
      some { feed with state := handleDXClusterRead tokenizer feed.state feed.data true }

/-! ## What is stated -/

section
variable (tokenizer : Tokenizer)

/-- The row of a line, from the tokens of the line. -/
def rowOf (line : Bytes) : Bytes :=
  let row := spotColumns (tokenizer.tokens (line.dropLast.drop 6))
  if isSpot line ∧ row ≠ [] then row.dropLast ++ [lf] else []

/-- The rows in the replies. -/
def Feed.handedOut (feed : Feed) : Bytes :=
  feed.replies.flatMap fun reply => reply.content.drop header.length

/-- The rows handed out and those pending are the rows of one read of the whole stream: one for each
finished line of a spot, in order. -/
def Conserved (feed : Feed) : Prop :=
  feed.state.crashed = false ∧
    readText tokenizer [] feed.stream = .ok (feed.handedOut ++ feed.data.pendingData) ∧
    feed.handedOut ++ feed.data.pendingData =
      (splitLines lf [] feed.stream).1.flatMap (rowOf tokenizer)

end

/-- The stream consists of lines that end with `"\r\n"`. -/
def CrlfLines (stream : Bytes) : Prop :=
  (splitLines lf [] stream).2 = [] ∧
    ∀ line ∈ (splitLines lf [] stream).1, line.getLast? = some cr

instance (stream : Bytes) : Decidable (CrlfLines stream) :=
  inferInstanceAs (Decidable (_ ∧ _))

def NoSpots (lines : List Bytes) : Prop := ∀ line ∈ lines, isSpot line = false

instance (lines : List Bytes) : Decidable (NoSpots lines) :=
  inferInstanceAs (Decidable (∀ line ∈ lines, isSpot line = false))

/-- None of the lines that a segment finishes has the beginning of a spot, neither as the buffer has
them nor as the stream does, where the first goes on from what was drained before. -/
def spotless (feed : Feed) : Event → Bool
  | .received segment =>
    let buffer := feed.data.response ++ segment
    NoSpots (splitLines lf [] buffer).1 ∧ NoSpots (splitLines lf feed.drained buffer).1
  | _ => true

/-! ## One read -/

variable {tokenizer : Tokenizer} {pendingData line s : Bytes}

theorem read_temporary (text : Bytes) :
    tokenizer.read (.temporary text) = if text = [] then .ok [] else .error .destroyed := by
  unfold Tokenizer.read TextRange.temporary
  by_cases htext : text = []
  · rw [if_pos (.inr htext), if_pos htext, htext, tokenizer.tokens_nil]
  · rw [if_neg (by simp [htext]), if_neg htext]

/-- A spot is left behind only when it is long enough, no text is in front of its line end and rows
are pending. -/
theorem lineTurn_spot {next : Bytes × Bytes} (hspot : isSpot s = true) :
    lineTurn tokenizer pendingData s = .ok next ↔
      (6 ≤ s.length ∧ beforeCrlf (s.drop 6) = [] ∧ pendingData ≠ []) ∧
        next = (pendingData.dropLast ++ [lf], afterLine lf (s.drop 6)) := by
  rw [lineTurn, if_pos hspot]
  dsimp only
  rw [read_temporary]
  by_cases hshort : s.length < 6
  · simp [hshort]
  · by_cases htext : beforeCrlf (s.drop 6) = []
    · have hrow : pendingData ++ spotColumns [] = pendingData := List.append_nil _
      rw [if_neg hshort, if_pos htext, Except.bind, hrow]
      by_cases hnone : pendingData = []
      · simp [hnone]
      · simp [hnone, htext, Nat.not_lt.mp hshort, eq_comm (a := next)]
    · simp [hshort, htext, Except.bind]

theorem lineTurn_other (hother : isSpot s = false) :
    lineTurn tokenizer pendingData s = .ok (pendingData, afterLine lf s) := by
  rw [lineTurn, hother, if_neg Bool.false_ne_true]

theorem lineTurn_length {next : Bytes × Bytes} (hs : lf ∈ s)
    (h : lineTurn tokenizer pendingData s = .ok next) : next.2.length < s.length := by
  cases hspot : isSpot s with
  | false =>
    cases (lineTurn_other hspot).symm.trans h
    exact length_afterLine_lt hs
  | true =>
    obtain ⟨-, rfl⟩ := (lineTurn_spot hspot).mp h
    exact length_afterLine_drop_lt hs 6

theorem lineLoop_congr {fuel other : ℕ} (hfuel : s.length < fuel) (hother : s.length < other) :
    lineLoop tokenizer fuel pendingData s = lineLoop tokenizer other pendingData s := by
  induction fuel generalizing other pendingData s with
  | zero => omega
  | succ fuel ih =>
    obtain ⟨other, rfl⟩ := Nat.exists_eq_succ_of_ne_zero (Nat.ne_of_gt (Nat.zero_lt_of_lt hother))
    rw [lineLoop, lineLoop]
    by_cases hs : lf ∈ s
    · rw [if_neg (not_not.mpr hs), if_neg (not_not.mpr hs)]
      cases hturn : lineTurn tokenizer pendingData s with
      | error fault => rfl
      | ok next =>
        have hlt := lineTurn_length hs hturn
        exact ih (by omega) (by omega)
    · rw [if_pos hs, if_pos hs]

theorem readText_unfinished (hs : lf ∉ s) : readText tokenizer pendingData s = .ok pendingData := by
  rw [readText, lineLoop, if_pos hs]

theorem readText_turn (hs : lf ∈ s) :
    readText tokenizer pendingData s =
      (lineTurn tokenizer pendingData s).bind fun next => readText tokenizer next.1 next.2 := by
  rw [readText, lineLoop, if_neg (not_not.mpr hs)]
  cases hturn : lineTurn tokenizer pendingData s with
  | error fault => rfl
  | ok next => exact lineLoop_congr (lineTurn_length hs hturn) (Nat.lt_succ_self _)

theorem isSpot_line : isSpot (line ++ lf :: s) = isSpot line := by
  have hdx : bytes "DX" = [68, 88] := by decide
  have hlf : lf = 10 := rfl
  match line with
  | [] => simp [isSpot, hdx, hlf, List.isPrefixOf]
  | [c] => simp [isSpot, hdx, hlf, List.isPrefixOf]
  | c :: d :: line => simp [isSpot, hdx, List.isPrefixOf]

theorem noSpots_cons {lines : List Bytes} :
    NoSpots (line :: lines) ↔ isSpot line = false ∧ NoSpots lines :=
  List.forall_mem_cons

/-- Without pending rows the loop comes to the end of the text only if no line of it is taken for a
spot, and then it has read nothing. -/
theorem readText_eq_ok {rows : Bytes} :
    readText tokenizer [] s = .ok rows ↔ NoSpots (splitLines lf [] s).1 ∧ rows = [] := by
  induction s using lineInduction (e := lf) with
  | unfinished s hs =>
    rw [readText_unfinished hs, splitLines_of_notMem hs]
    exact ⟨fun hread => ⟨by simp [NoSpots], (Except.ok.inj hread).symm⟩, fun h => h.2 ▸ rfl⟩
  | line line s hline ih =>
    have hmem : lf ∈ line ++ lf :: s := List.mem_append_right _ List.mem_cons_self
    rw [readText_turn hmem, splitLines_line hline, List.nil_append, noSpots_cons]
    cases hspot : isSpot line with
    | false =>
      rw [lineTurn_other (isSpot_line.trans hspot), afterLine_line hline, and_iff_right rfl]
      exact ih
    | true =>
      refine iff_of_false (fun hread => ?_) (by simp)
      cases hturn : lineTurn tokenizer [] (line ++ lf :: s) with
      | error fault => simp [hturn, Except.bind] at hread
      | ok next => exact ((lineTurn_spot (isSpot_line.trans hspot)).mp hturn).1.2.2 rfl

theorem rowOf_other (hother : isSpot line = false) : rowOf tokenizer line = [] := by
  simp [rowOf, hother]

/-! ## Runs of the feed -/

/-- What holds between two events: the unfinished line is drained or in the buffer, and no row was
ever made. -/
structure Kept (feed : Feed) : Prop where
  unfinished : (splitLines lf [] feed.stream).2 = feed.drained ++ feed.data.response
  pending : feed.data.pendingData = []
  handed : feed.handedOut = []

/-- The server lives, and no finished line of the stream has the beginning of a spot. -/
def Sound (feed : Feed) : Prop :=
  feed.state.crashed = false ∧ NoSpots (splitLines lf [] feed.stream).1

theorem kept_start : Kept {} := ⟨rfl, rfl, rfl⟩

theorem Kept.conserved_iff_sound {feed : Feed} (h : Kept feed) :
    Conserved tokenizer feed ↔ Sound feed := by
  rw [Conserved, h.handed, h.pending, readText_eq_ok, Sound]
  refine and_congr_right' ⟨fun hread => hread.1.1, fun hlines => ⟨⟨hlines, rfl⟩, ?_⟩⟩
  exact (List.flatMap_eq_nil_iff.mpr fun line hline => rowOf_other (hlines line hline)).symm

section
variable {feed : Feed} (h : Kept feed) (segment : Bytes)
include h

/-- The lines that a segment finishes are those of the stream. -/
theorem Kept.stream_segment :
    splitLines lf [] (feed.stream ++ segment) =
      ((splitLines lf [] feed.stream).1 ++
          (splitLines lf feed.drained (feed.data.response ++ segment)).1,
        (splitLines lf feed.drained (feed.data.response ++ segment)).2) := by
  have hresponse : lf ∉ feed.data.response := fun hmem =>
    notMem_unfinished List.not_mem_nil feed.stream (h.unfinished ▸ List.mem_append_right _ hmem)
  rw [splitLines_append, h.unfinished, splitLines_append (s := feed.data.response),
    splitLines_of_notMem hresponse]
  rfl

theorem Kept.receive : Kept (feed.receive tokenizer segment) := by
  have hstream := congrArg Prod.snd (h.stream_segment segment)
  unfold Feed.receive
  dsimp only
  split_ifs with hcompletes
  · simp only [handleDXClusterRead, h.pending, Bool.false_eq_true, if_false]
    cases hread : readText tokenizer [] (feed.data.response ++ segment) with
    | error fault => exact ⟨by simpa [Feed.data] using hstream, rfl, h.handed⟩
    | ok rows =>
      exact ⟨by simpa [Feed.data] using hstream, (readText_eq_ok.mp hread).2, h.handed⟩
  · have hnone : lf ∉ feed.data.response ++ segment := by
      simp only [Feed.completes, Bool.or_eq_true, not_or, decide_eq_true_eq] at hcompletes
      exact hcompletes.2
    rw [splitLines_of_notMem hnone] at hstream
    exact ⟨hstream, h.pending, h.handed⟩

/-- A read fails exactly at a line that the buffer begins a spot with. -/
theorem Kept.receive_alive (halive : feed.state.crashed = false) :
    (feed.receive tokenizer segment).state.crashed = false ↔
      NoSpots (splitLines lf [] (feed.data.response ++ segment)).1 := by
  unfold Feed.receive
  dsimp only
  split_ifs with hcompletes
  · simp only [handleDXClusterRead, h.pending, Bool.false_eq_true, if_false]
    cases hread : readText tokenizer [] (feed.data.response ++ segment) with
    | error fault =>
      refine iff_of_false (by simp) fun hlines => ?_
      cases hread.symm.trans (readText_eq_ok.mpr ⟨hlines, rfl⟩)
    | ok rows => exact iff_of_true halive (readText_eq_ok.mp hread).1
  · have hnone : lf ∉ feed.data.response ++ segment := by
      simp only [Feed.completes, Bool.or_eq_true, not_or, decide_eq_true_eq] at hcompletes
      exact hcompletes.2
    rw [splitLines_of_notMem hnone]
    exact iff_of_true halive (by simp [NoSpots])

theorem Kept.receive_sound (halive : feed.state.crashed = false) :
    Sound (feed.receive tokenizer segment) ↔
      Sound feed ∧ spotless feed (.received segment) = true := by
  have hstream : (feed.receive tokenizer segment).stream = feed.stream ++ segment := by
    unfold Feed.receive
    dsimp only
    split_ifs <;> rfl
  have hlines : NoSpots (splitLines lf [] (feed.stream ++ segment)).1 ↔
      NoSpots (splitLines lf [] feed.stream).1 ∧
        NoSpots (splitLines lf feed.drained (feed.data.response ++ segment)).1 := by
    rw [h.stream_segment]
    exact List.forall_mem_append
  rw [Sound, h.receive_alive segment halive, hstream, hlines, Sound, spotless, decide_eq_true_eq]
  simp only [halive, true_and]
  exact and_left_comm

end

/-- A `/dxcluster` request takes the pending rows into its reply and leaves the buffer alone. -/
theorem askDXCluster_spec (state : State) :
    (askDXCluster state {}).2.crashed = state.crashed ∧
      ((askDXCluster state {}).2.data.getD {}).pendingData = [] ∧
      ((askDXCluster state {}).2.data.getD {}).response = (state.data.getD {}).response ∧
      (askDXCluster state {}).1.content.drop header.length = (state.data.getD {}).pendingData := by
  cases hdata : state.data with
  | none => simp [askDXCluster, hdata]
  | some data => simp [askDXCluster, hdata, Reply.setContent]

theorem Kept.answer {feed : Feed} (h : Kept feed) (request : Request) :
    Kept (feed.answer request) ∧ (feed.answer request).state.crashed = feed.state.crashed := by
  obtain ⟨hunfinished, hpending, hhanded⟩ := h
  by_cases huri : request.uri = bytes "/dxcluster"
  · obtain ⟨hcrashed, htaken, hresponse, hcontent⟩ := askDXCluster_spec feed.state
    simp only [Feed.answer, handleRequest, if_pos huri, if_true]
    refine ⟨⟨?_, htaken, ?_⟩, hcrashed⟩
    · rw [Feed.data, hresponse]
      exact hunfinished
    · rw [Feed.handedOut, List.flatMap_append, List.flatMap_singleton, hcontent]
      exact List.append_eq_nil_iff.mpr ⟨hhanded, hpending⟩
  · simp only [Feed.answer, handleRequest, if_neg huri, Bool.false_eq_true, if_false]
    exact ⟨⟨hunfinished, hpending, hhanded⟩, trivial⟩

/-- An operation whose handler leaves the rows and the buffer alone. -/
theorem Kept.handle {feed : Feed} (h : Kept feed) {state : State}
    (hpending : (state.data.getD {}).pendingData = feed.data.pendingData)
    (hresponse : (state.data.getD {}).response = feed.data.response) : Kept { feed with state } :=
  ⟨h.unfinished.trans (by rw [← hresponse]; rfl), hpending.trans h.pending, h.handed⟩

/-- Only a segment changes the soundness of a feed. -/
theorem kept_step {username : Bytes} {feed next : Feed} (h : Kept feed)
    (halive : feed.state.crashed = false) {event : Event}
    (hnext : (system tokenizer username).step feed event = some next) :
    Kept next ∧ (Sound next ↔ Sound feed ∧ spotless feed event = true) := by
  have hsame {next : Feed} (hcrashed : next.state.crashed = feed.state.crashed)
      (hstream : next.stream = feed.stream) : Sound next ↔ Sound feed ∧ true = true := by
    rw [Sound, Sound, hcrashed, hstream, and_iff_left rfl]
  cases event with
  | request request =>
    obtain rfl := Option.some.inj hnext
    obtain ⟨hkept, hcrashed⟩ := h.answer request
    exact ⟨hkept, hsame hcrashed rfl⟩
  | connected failed =>
    obtain rfl := Option.some.inj hnext
    cases failed <;> exact ⟨h.handle rfl rfl, hsame rfl rfl⟩
  | written failed sent =>
    obtain rfl := Option.some.inj hnext
    cases failed <;> exact ⟨h.handle rfl rfl, hsame rfl rfl⟩
  | received segment =>
    obtain rfl := Option.some.inj hnext
    exact ⟨h.receive segment, h.receive_sound segment halive⟩
  | disconnected =>
    obtain rfl := Option.some.inj hnext
    exact ⟨h.handle rfl rfl, hsame rfl rfl⟩

theorem alive_of_enabled {username : Bytes} {feed : Feed} {event : Event}
    (h : (system tokenizer username).enabled feed event = true) : feed.state.crashed = false := by
  have halive := (Bool.and_eq_true _ _ ▸ h).1
  simpa using halive

section
variable {username : Bytes} {events : List Event} {feed : Feed}

theorem kept_of_run {guard : Feed → Event → Bool}
    (hrun : (system tokenizer username).Run guard events feed) : Kept feed := by
  refine System.Run.invariant (I := fun _ feed => Kept feed) kept_start ?_ hrun
  intro past feed event next ih henabled _ hstep
  exact (kept_step ih (alive_of_enabled henabled) hstep).1

theorem sound_of_spotless (hrun : (system tokenizer username).Run spotless events feed) :
    Sound feed := by
  have hstart : Kept {} ∧ Sound {} := ⟨kept_start, rfl, by simp [splitLines, NoSpots]⟩
  refine (System.Run.invariant (I := fun _ feed => Kept feed ∧ Sound feed) hstart ?_ hrun).2
  rintro past feed event next ⟨hkept, hsound⟩ - hguard hstep
  obtain ⟨hnext, hiff⟩ := kept_step hkept hsound.1 hstep
  exact ⟨hnext, hiff.mpr ⟨hsound, hguard⟩⟩

/-- A run that ends soundly was spotless all along. -/
theorem spotless_of_sound (hrun : (system tokenizer username).Run (fun _ _ => true) events feed)
    (hsound : Sound feed) : (system tokenizer username).Run spotless events feed := by
  have hstart : Kept {} ∧ (Sound {} → (system tokenizer username).Run spotless [] {}) :=
    ⟨kept_start, fun _ => .start⟩
  refine (System.Run.invariant (I := fun events feed =>
    Kept feed ∧ (Sound feed → (system tokenizer username).Run spotless events feed))
      hstart ?_ hrun).2 hsound
  rintro past feed event next ⟨hkept, hbefore⟩ henabled - hstep
  obtain ⟨hnext, hiff⟩ := kept_step hkept (alive_of_enabled henabled) hstep
  refine ⟨hnext, fun hsound => ?_⟩
  obtain ⟨hfeed, hguard⟩ := hiff.mp hsound
  exact (hbefore hfeed).next henabled hguard hstep

end

/-- Rows are kept exactly in the runs in which no finished line has the beginning of a spot: a line
that has it fails the read, or is no spot any more behind a cut. -/
theorem conserved_iff (tokenizer : Tokenizer) (username : Bytes) (events : List Event) (feed : Feed)
    (hrun : (system tokenizer username).Run (fun _ _ => true) events feed) :
    Conserved tokenizer feed ↔ (system tokenizer username).Run spotless events feed :=
  (kept_of_run hrun).conserved_iff_sound.trans ⟨spotless_of_sound hrun, sound_of_spotless⟩

/-- The tokens between blanks, without empty ones; the first goes on from `word`. -/
def splitBlanks : Bytes → Bytes → List Bytes
  | word, [] => if word = [] then [] else [word]
  | word, c :: text =>
    if c = ch ' ' then (if word = [] then splitBlanks [] text else word :: splitBlanks [] text)
    else splitBlanks (word ++ [c]) text

def blanks : Tokenizer := ⟨splitBlanks [], rfl⟩

def clusterRequest : Event := .request { method := bytes "GET", uri := bytes "/dxcluster" }

/-- The prompt has no line end, and the third segment fills the buffer without a completion. -/
def greetingEvents : List Event :=
  [clusterRequest, .connected false, .written false 0, .received (bytes "login: "),
    .received (bytes "Hello\r\nTo ALL de K1ABC: 73\r\nbr"), clusterRequest, .received (bytes "ea"),
    .received (bytes "k\r\n"), clusterRequest]

theorem conserved_greetingEvents : ∃ feed : Feed,
    feed.stream = bytes "login: Hello\r\nTo ALL de K1ABC: 73\r\nbreak\r\n" ∧
      feed.replies.map (·.content) = [[], header, header] ∧ Conserved blanks feed := by
  have hexec : (System.exec (system blanks (bytes "ok2jrq")) spotless {} greetingEvents).any
      (fun feed => feed.stream = bytes "login: Hello\r\nTo ALL de K1ABC: 73\r\nbreak\r\n" ∧
        feed.replies.map (·.content) = [[], header, header]) = true := by decide +kernel
  obtain ⟨feed, hrun, hcheck⟩ := System.exists_run_of_exec hexec
  obtain ⟨hstream, hreplies⟩ := of_decide_eq_true hcheck
  exact ⟨feed, hstream, hreplies,
    (conserved_iff _ _ _ feed (hrun.mono fun _ _ _ => rfl)).mpr hrun⟩

def spot : Bytes := bytes "DX de K1ABC:  14025.0  W1AW  CQ up 2  1200Z\r\n"

/-- The first read ends with the first bytes of a spot. -/
def cutEvents : List Event :=
  [clusterRequest, .connected false, .written false 0, .received (spot.take 9),
    .received (spot.drop 9), clusterRequest]

/-- A spot that a completion cuts has no row, and no read of the run fails. -/
theorem not_conserved_cut :
    ¬ ∀ (username : Bytes) (events : List Event) (feed : Feed),
      (system blanks username).Run (fun _ _ => true) events feed → CrlfLines feed.stream →
        Conserved blanks feed := by
  intro h
  have hexec : (System.exec (system blanks (bytes "ok2jrq")) (fun _ _ => true) {} cutEvents).any
      (fun feed => CrlfLines feed.stream ∧ feed.handedOut ++ feed.data.pendingData ≠
        (splitLines lf [] feed.stream).1.flatMap (rowOf blanks)) = true := by decide +kernel
  obtain ⟨feed, hrun, hcheck⟩ := System.exists_run_of_exec hexec
  obtain ⟨hlines, hlost⟩ := of_decide_eq_true hcheck
  exact hlost (h _ _ feed hrun hlines).2.2

end DXCluster
end Hamlog.Server
