import Hamlog.Library.DigestFields

/-! # Which challenges are answered

The handler of the first reply pops the fields of the challenge from the last one
to the first and stops at a name without a value. A pointer that no field sets is
the null pointer only for `opaque`; the handler looks at the other three first.
-/
namespace Hamlog.Library
open Foundation Wire Server.Login

/-- The tokens of a challenge, behind `Digest` and a blank. -/
def challengeTokens (auth : Bytes) : List Bytes :=
  digestTokens (auth.drop 7).length (auth.drop 7)

/-- The name and the value of a token that has both. -/
def tokenField (token : Bytes) : Option (Bytes × Bytes) :=
  if token.takeWhile (· ≠ ch '=') = [] then none
  else (fieldValue token).map fun value => (token.takeWhile (· ≠ ch '='), value)

/-- A name without a value. -/
def Valueless (token : Bytes) : Prop := token ≠ [] ∧ ch '=' ∉ token

/-- Some token gives the name a value, and no token behind it is a name without one. -/
def Assigned (tokens : List Bytes) (name value : Bytes) : Prop :=
  ∃ front token back, tokens = front ++ token :: back ∧ tokenField token = some (name, value) ∧
    ∀ later ∈ back, ¬Valueless later

theorem fieldValue_eq_none {token : Bytes} : fieldValue token = none ↔ ch '=' ∉ token := by
  have hsplit : token.takeWhile (· ≠ ch '=') ++ token.dropWhile (· ≠ ch '=') = token :=
    List.takeWhile_append_dropWhile
  rw [fieldValue]
  cases hrest : token.dropWhile (· ≠ ch '=') with
  | nil =>
    have hall := List.dropWhile_eq_nil_iff.mp hrest
    simp only [true_iff]
    intro hmem
    simpa using hall _ hmem
  | cons c rest =>
    have hhead := List.head?_dropWhile_not (fun c => decide (c ≠ ch '=')) token
    rw [hrest] at hhead hsplit
    obtain rfl : c = ch '=' := by simpa using hhead
    simp only [reduceCtorEq, false_iff, not_not]
    exact hsplit ▸ List.mem_append_right _ List.mem_cons_self

/-- A token is a name without a value exactly when it has a name and no value. -/
theorem valueless_iff {token : Bytes} :
    Valueless token ↔ token.takeWhile (· ≠ ch '=') ≠ [] ∧ fieldValue token = none := by
  rw [fieldValue_eq_none, Valueless]
  refine and_congr_left fun hmem => ?_
  have hself : token.takeWhile (· ≠ ch '=') = token :=
    List.takeWhile_eq_self_iff.mpr fun c hc => decide_eq_true fun heq => hmem (heq ▸ hc)
  rw [hself]

theorem not_valueless_of_field {token : Bytes} {field : Bytes × Bytes}
    (h : tokenField token = some field) : ¬Valueless token := by
  rw [valueless_iff]
  rintro ⟨-, hnone⟩
  rw [tokenField, hnone] at h
  split_ifs at h
  simp at h

theorem insertToken_cases (ret : List (Option Bytes)) (token : Bytes) :
    (Valueless token ∧ ∃ name, insertToken ret token = some name :: none :: ret) ∨
      (¬Valueless token ∧ tokenField token = none ∧ insertToken ret token = ret) ∨
      ∃ field, tokenField token = some field ∧
        insertToken ret token = some field.1 :: some field.2 :: ret := by
  rw [insertToken_eq, storeField, tokenField]
  by_cases hname : token.takeWhile (· ≠ ch '=') = []
  · right; left
    refine ⟨fun h => (valueless_iff.mp h).1 hname, by rw [if_pos hname], ?_⟩
    rw [hname, List.isEmpty_nil, if_pos rfl]
  · rw [if_neg hname, if_neg (by simpa using hname)]
    cases hvalue : fieldValue token with
    | none => exact .inl ⟨valueless_iff.mpr ⟨hname, hvalue⟩, _, rfl⟩
    | some value => exact .inr (.inr ⟨_, rfl, rfl⟩)

theorem assigned_concat {tokens : List Bytes} {token name value : Bytes} :
    Assigned (tokens ++ [token]) name value ↔
      tokenField token = some (name, value) ∨ ¬Valueless token ∧ Assigned tokens name value := by
  constructor
  · rintro ⟨front, t, back, hsplit, hfield, hback⟩
    rcases List.eq_nil_or_concat' back with rfl | ⟨back, last, rfl⟩
    · obtain ⟨-, hlast⟩ := List.append_inj' hsplit rfl
      obtain rfl := List.singleton_inj.mp hlast
      exact .inl hfield
    · rw [← List.cons_append, ← List.append_assoc] at hsplit
      obtain ⟨rfl, hlast⟩ := List.append_inj' hsplit rfl
      obtain rfl := List.singleton_inj.mp hlast
      exact .inr ⟨hback token (by simp), front, t, back, rfl, hfield,
        fun later hlater => hback later (List.mem_append_left _ hlater)⟩
  · rintro (hfield | ⟨hvalue, front, t, back, rfl, hfield, hback⟩)
    · exact ⟨tokens, token, [], rfl, hfield, by simp⟩
    · refine ⟨front, t, back ++ [token], by simp, hfield, fun later hlater => ?_⟩
      rcases List.mem_append.mp hlater with hlater | hlater
      · exact hback later hlater
      · exact List.mem_singleton.mp hlater ▸ hvalue

/-- The loop pops the fields behind the last name without a value. -/
theorem mem_poppedPairs {tokens : List Bytes} {name value : Bytes} :
    (name, value) ∈ poppedPairs (tokens.foldl insertToken []) ↔ Assigned tokens name value := by
  induction tokens using List.reverseRecOn with
  | nil => simp [poppedPairs, Assigned]
  | append_singleton tokens token ih =>
    rw [assigned_concat, List.foldl_append, List.foldl_cons, List.foldl_nil]
    rcases insertToken_cases (tokens.foldl insertToken []) token with
      ⟨hless, other, hinsert⟩ | ⟨hvalue, hnone, hinsert⟩ | ⟨field, hfield, hinsert⟩
    · have hnot : tokenField token ≠ some (name, value) := fun h => not_valueless_of_field h hless
      simp [hinsert, poppedPairs, hless, hnot]
    · simp [hinsert, hvalue, hnone, ih]
    · have hvalue := not_valueless_of_field hfield
      simp [hinsert, poppedPairs, hvalue, hfield, ih, eq_comm]

/-! ## The pointers behind the loop -/

/-- The pointer that the loop keeps for a name is set by the fields of that name only. -/
theorem foldl_set {pointer : Challenge → Option Bytes} {key : Bytes}
    (hset : ∀ (challenge : Challenge) (name value : Bytes),
      pointer (challenge.set name value) = if name = key then some value else pointer challenge)
    (pairs : List (Bytes × Bytes)) (challenge : Challenge) (hstart : pointer challenge = none) :
    let last := pairs.foldl (fun challenge pair => challenge.set pair.1 pair.2) challenge
    (pointer last = none ↔ ∀ value, (key, value) ∉ pairs) ∧
      ∀ value, pointer last = some value → (key, value) ∈ pairs := by
  induction pairs using List.reverseRecOn with
  | nil => simp [hstart]
  | append_singleton pairs pair ih =>
    obtain ⟨hnone, hsome⟩ := ih
    simp only [List.foldl_append, List.foldl_cons, List.foldl_nil, hset]
    by_cases hkey : pair.1 = key
    · subst hkey
      rw [if_pos rfl]
      refine ⟨⟨fun h => absurd h (by simp), fun h => absurd (by simp) (h pair.2)⟩,
        fun value hvalue => ?_⟩
      cases hvalue
      simp
    · have hother (value : Bytes) : (key, value) ≠ pair := fun heq => hkey (by rw [← heq])
      simp only [if_neg hkey, List.mem_append, List.mem_singleton, hother, or_false]
      exact ⟨hnone, hsome⟩

/-- The pointers behind the loop over a challenge. -/
def poppedChallenge (auth : Bytes) : Challenge :=
  popChallenge (hamLoginDigestMd5Parse (auth.drop 7)) {}

theorem poppedChallenge_pointer {pointer : Challenge → Option Bytes} {key : Bytes}
    (hset : ∀ (challenge : Challenge) (name value : Bytes),
      pointer (challenge.set name value) = if name = key then some value else pointer challenge)
    (hstart : pointer {} = none) (auth : Bytes) :
    ((∃ value, Assigned (challengeTokens auth) key value) ↔ pointer (poppedChallenge auth) ≠ none) ∧
      ∀ value, pointer (poppedChallenge auth) = some value →
        Assigned (challengeTokens auth) key value := by
  obtain ⟨hnone, hsome⟩ := foldl_set hset
    (poppedPairs (hamLoginDigestMd5Parse (auth.drop 7))) {} hstart
  rw [poppedChallenge, popChallenge_eq]
  refine ⟨?_, fun value hvalue => mem_poppedPairs.mp (hsome value hvalue)⟩
  rw [ne_eq, hnone, not_forall]
  exact exists_congr fun value => mem_poppedPairs.symm.trans not_not.symm

theorem set_qop (challenge : Challenge) (name value : Bytes) :
    (challenge.set name value).qop = if name = bytes "qop" then some value else challenge.qop := by
  rw [Challenge.set]
  split_ifs <;> rfl

theorem set_realm (challenge : Challenge) (name value : Bytes) :
    (challenge.set name value).realm =
      if name = bytes "realm" then some value else challenge.realm := by
  have hqop : bytes "realm" ≠ bytes "qop" := by decide
  rw [Challenge.set]
  split_ifs <;> simp_all

theorem set_nonce (challenge : Challenge) (name value : Bytes) :
    (challenge.set name value).nonce =
      if name = bytes "nonce" then some value else challenge.nonce := by
  have hdistinct : bytes "nonce" ≠ bytes "qop" ∧ bytes "nonce" ≠ bytes "realm" := by decide
  rw [Challenge.set]
  split_ifs <;> simp_all

theorem set_opaqueValue (challenge : Challenge) (name value : Bytes) :
    (challenge.set name value).opaqueValue =
      if name = bytes "opaque" then some value else challenge.opaqueValue := by
  have hdistinct : bytes "opaque" ≠ bytes "qop" ∧ bytes "opaque" ≠ bytes "realm" ∧
      bytes "opaque" ≠ bytes "nonce" := by decide
  rw [Challenge.set]
  split_ifs <;> simp_all

/-! ## The answer -/

variable (md5 : Bytes → Bytes) (username password : Bytes)

/-- A token of the challenge gives the name this value. -/
def HasField (auth name value : Bytes) : Prop :=
  ∃ token ∈ challengeTokens auth, tokenField token = some (name, value)

/-- The four fields are found with values and one request is sent from them, or nothing is. -/
def AnsweredOrStopped (auth : Bytes) (step : LoginStep) : Prop :=
  step = .stop ∨ ∃ qop realm nonce opaqueValue, HasField auth (bytes "qop") qop ∧
    HasField auth (bytes "realm") realm ∧ HasField auth (bytes "nonce") nonce ∧
    HasField auth (bytes "opaque") opaqueValue ∧
    step = .send (loginRequest (authorizationText username realm
      (loginResponse md5 username password realm nonce) opaqueValue))

theorem Assigned.hasField {auth name value : Bytes}
    (h : Assigned (challengeTokens auth) name value) : HasField auth name value := by
  obtain ⟨front, token, back, hsplit, hfield, -⟩ := h
  exact ⟨token, by rw [hsplit]; simp, hfield⟩

/-- The step is decided by the pointers behind the loop. -/
theorem handleGetResponse1_challenge {reply : HAMReply} {auth : Bytes} (hstatus : reply.status = 401)
    (hauth : hamReplyGetHeader reply (bytes "WWW-Authenticate") = some auth)
    (hlen : 7 ≤ auth.length) :
    hamLoginHandleGetResponse1 md5 username password reply =
      match poppedChallenge auth with
      | ⟨some _, some realm, some nonce, some opaqueValue⟩ =>
        .send (loginRequest (authorizationText username realm
          (loginResponse md5 username password realm nonce) opaqueValue))
      | ⟨some _, some _, some _, none⟩ => .stop
      | _ => .undefined := by
  rw [hamLoginHandleGetResponse1, if_neg (by simpa using hstatus), hauth]
  simp only [if_neg (Nat.not_lt.mpr hlen)]
  rfl

theorem not_answeredOrStopped (auth : Bytes) :
    ¬AnsweredOrStopped md5 username password auth .undefined := by
  rintro (hstop | ⟨qop, realm, nonce, opaqueValue, -, -, -, -, hsend⟩)
  · cases hstop
  · cases hsend

/-- The handler answers a challenge or sends nothing exactly when each of the three pointers that it
looks at first is set: some token gives the name a value and no name behind it comes without one. -/
theorem challenge_answered_iff {reply : HAMReply} {auth : Bytes} (hstatus : reply.status = 401)
    (hauth : hamReplyGetHeader reply (bytes "WWW-Authenticate") = some auth)
    (hlen : 7 ≤ auth.length) :
    AnsweredOrStopped md5 username password auth
        (hamLoginHandleGetResponse1 md5 username password reply) ↔
      ∀ name ∈ [bytes "qop", bytes "realm", bytes "nonce"],
        ∃ value, Assigned (challengeTokens auth) name value := by
  obtain ⟨hqop, hqop'⟩ := poppedChallenge_pointer set_qop rfl auth
  obtain ⟨hrealm, hrealm'⟩ := poppedChallenge_pointer set_realm rfl auth
  obtain ⟨hnonce, hnonce'⟩ := poppedChallenge_pointer set_nonce rfl auth
  obtain ⟨-, hopaque'⟩ := poppedChallenge_pointer set_opaqueValue rfl auth
  rw [handleGetResponse1_challenge md5 username password hstatus hauth hlen]
  simp only [List.mem_cons, List.not_mem_nil, or_false, forall_eq_or_imp, forall_eq]
  rw [hqop, hrealm, hnonce]
  generalize poppedChallenge auth = challenge at hqop' hrealm' hnonce' hopaque' ⊢
  rcases challenge with ⟨_ | qop, _ | realm, _ | nonce, last⟩
  case some.some.some =>
    refine iff_of_true ?_ (by simp)
    cases last with
    | none => exact .inl rfl
    | some opaqueValue =>
      exact .inr ⟨qop, realm, nonce, opaqueValue, (hqop' qop rfl).hasField,
        (hrealm' realm rfl).hasField, (hnonce' nonce rfl).hasField,
        (hopaque' opaqueValue rfl).hasField, rfl⟩
  all_goals exact iff_of_false (not_answeredOrStopped md5 username password auth) (by simp)

/-- A challenge that has the three fields without `opaque`. -/
theorem challenge_answered_short :
    let auth := bytes "Digest qop=a,realm=b,nonce=c"
    AnsweredOrStopped id [] [] auth (hamLoginHandleGetResponse1 id [] []
      { status := 401, headers := [⟨bytes "WWW-Authenticate", auth⟩] }) := by
  refine (challenge_answered_iff id [] [] rfl (by decide) (by decide)).mpr ?_
  have htokens : challengeTokens (bytes "Digest qop=a,realm=b,nonce=c") =
      [bytes "qop=a", bytes "realm=b", bytes "nonce=c"] := by decide
  have hvalues : ¬Valueless (bytes "realm=b") ∧ ¬Valueless (bytes "nonce=c") := by
    simp only [Valueless]
    decide
  rw [htokens]
  intro name hname
  simp only [List.mem_cons, List.not_mem_nil, or_false] at hname
  rcases hname with rfl | rfl | rfl
  · exact ⟨bytes "a", [], bytes "qop=a", _, rfl, by decide, by simp [hvalues]⟩
  · exact ⟨bytes "b", [bytes "qop=a"], bytes "realm=b", _, rfl, by decide, by simp [hvalues]⟩
  · exact ⟨bytes "c", [bytes "qop=a", bytes "realm=b"], bytes "nonce=c", [], rfl,
      by decide, by simp⟩

/-- All four fields are sent, and a flag behind them that has no value: the loop stops at the flag,
and the handler reads pointers that nothing has set. -/
theorem challenge_flag_undefined :
    ¬∀ (md5 : Bytes → Bytes) (username password : Bytes) (reply : HAMReply) (auth : Bytes),
      reply.status = 401 → hamReplyGetHeader reply (bytes "WWW-Authenticate") = some auth →
      7 ≤ auth.length → AnsweredOrStopped md5 username password auth
        (hamLoginHandleGetResponse1 md5 username password reply) := by
  intro hall
  let auth := bytes "Digest qop=a,realm=b,nonce=c,opaque=d,e"
  let reply : HAMReply := { status := 401, headers := [⟨bytes "WWW-Authenticate", auth⟩] }
  have hstep : hamLoginHandleGetResponse1 id [] [] reply = .undefined := by decide
  have hanswer := hall id [] [] reply auth rfl (by decide) (by decide)
  rw [hstep] at hanswer
  exact not_answeredOrStopped id [] [] auth hanswer

end Hamlog.Library
