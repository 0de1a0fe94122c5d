import Hamlog.Library.Account
import Hamlog.Server.Responders.DigestText
import Hamlog.Server.Responders.Register
import Hamlog.Wire.ReplyRoundTrip
import Hamlog.Wire.RequestStream

/-! # A registration and a login

The client's register request, its login request and its response to the
challenge, each sent over the wire and answered by the modules of the server.
The stored hash, the challenge, the response and the parsing of the header are
four pieces of code in two programs; they agree for every name and password that
the header can carry.
-/
namespace Hamlog.Wire
open Foundation Library Server StorageBackend

/-! ## Exchanges -/

section Exchange
variable {κ σ : Type*} (manager : ModuleManager κ σ)

/-- A request is printed, parsed and answered by the server, and the reply is printed and parsed. -/
def exchange (context : κ) (state : σ) (request : HAMRequest) : Option (HAMReply × σ) :=
  let parsed := RequestParser.parse .methodStart {} (hamRequestGetData request)
  if !parsed.2.2.finished then none
  else
    let answered := manager.answer context state parsed.2.2
    (hamParserParse {} {} answered.1.toString.1).bind fun reply =>
      if reply.2.2.finished then some (reply.2.2, answered.2) else none

/-- The client gets what the server answered. -/
theorem exchange_eq {context : κ} {state : σ} {request : HAMRequest} (hrequest : Sendable request)
    {reply : Reply} {state' : σ} (hanswer : manager.answer context state (received request) =
      (reply, state')) (h : WellFormed reply) (hfit : FitsClient reply)
    (hcontent : ∃ c ∈ reply.content, c ≠ cr) :
    ∃ r : HAMReply, exchange manager context state request = some (r, state') ∧
      r.status = reply.status.code ∧ r.headers = reply.sentHeaders := by
  obtain ⟨⟨q, r, hparse, -, hfinished, hstatus, hheaders, -⟩, -⟩ :=
    hamParserParse_toString reply {} ⟨rfl, rfl⟩ h hfit (Or.inr hcontent)
  have hparsed : (RequestParser.parse .methodStart {} (hamRequestGetData request)).2.2 =
      received request := by
    rw [RequestParser.parse_initial_eq, parse_hamRequestGetData hrequest]
  refine ⟨r, ?_, hstatus, hheaders.trans reply.toString_headers⟩
  rw [exchange]
  dsimp only
  rw [hparsed, hanswer]
  simp [received, hparse, hfinished]

end Exchange

/-! ## The names and the hashes -/

/-- `MD5` as 32 lowercase hexadecimal digits. -/
structure HexDigest (md5 : Bytes → Bytes) : Prop where
  length : ∀ text, (md5 text).length = 32
  digits : ∀ text, ∀ c ∈ md5 text, c ∈ bytes "0123456789abcdef"

/-- A name that survives the header: it has no control characters and no quote, and nothing at its
ends that is trimmed. -/
structure LoginName (username : Bytes) : Prop where
  control : ∀ c ∈ username, isControl c = false
  quote : quote ∉ username
  head : username.head? ≠ some (ch ' ')
  last : username.getLast? ≠ some (ch ' ') ∧ username.getLast? ≠ some (ch ',')

theorem isBlank_iff {c : Byte} (h : isControl c = false) :
    Login.isBlank c = true ↔ c = ch ' ' := by
  have hcontrol : isControl (ch '\t') = true ∧ isControl (ch '\r') = true ∧
      isControl (ch '\n') = true := by decide
  have hne : c ≠ ch '\t' ∧ c ≠ ch '\r' ∧ c ≠ ch '\n' :=
    ⟨ne_of_isControl h hcontrol.1, ne_of_isControl h hcontrol.2.1, ne_of_isControl h hcontrol.2.2⟩
  simp [Login.isBlank, hne]

theorem LoginName.trimmed {username : Bytes} (h : LoginName username) : Login.Trimmed username := by
  constructor
  · intro c hc
    have hmem := List.mem_of_mem_head? hc
    have hblank := isBlank_iff (h.control c hmem)
    rw [Option.mem_def] at hc
    have hspace : c ≠ ch ' ' := fun heq => h.head (heq ▸ hc)
    have hquote : c ≠ Wire.quote := fun heq => h.quote (heq ▸ hmem)
    simp [Bool.eq_false_iff.mpr (mt hblank.mp hspace), hquote]
  · intro c hc
    have hmem := List.mem_of_mem_getLast? hc
    have hblank := isBlank_iff (h.control c hmem)
    rw [Option.mem_def] at hc
    have hspace : c ≠ ch ' ' := fun heq => h.last.1 (heq ▸ hc)
    have hcomma : c ≠ ch ',' := fun heq => h.last.2 (heq ▸ hc)
    have hquote : c ≠ Wire.quote := fun heq => h.quote (heq ▸ hmem)
    simp [Bool.eq_false_iff.mpr (mt hblank.mp hspace), hcomma, hquote]

/-- A hash can be the name of a header. -/
theorem HexDigest.loginName {md5 : Bytes → Bytes} (h : HexDigest md5) (text : Bytes) :
    LoginName (md5 text) := by
  have hall : (bytes "0123456789abcdef").all (fun c =>
      !isControl c && c != quote && c != ch ' ' && c != ch ',') = true := by decide
  have hdigit (c : Byte) (hc : c ∈ md5 text) :
      isControl c = false ∧ c ≠ quote ∧ c ≠ ch ' ' ∧ c ≠ ch ',' := by
    simpa [and_assoc] using List.all_eq_true.mp hall c (h.digits text c hc)
  refine ⟨fun c hc => (hdigit c hc).1, fun hquote => (hdigit _ hquote).2.1 rfl, fun hhead => ?_,
    fun hlast => ?_, fun hlast => ?_⟩
  · exact (hdigit _ (List.mem_of_mem_head? hhead)).2.2.1 rfl
  · exact (hdigit _ (List.mem_of_mem_getLast? hlast)).2.2.1 rfl
  · exact (hdigit _ (List.mem_of_mem_getLast? hlast)).2.2.2 rfl

/-! ## The header -/

def realm : Bytes := bytes "realm@hamlog"

def challengeOpaque : Bytes := bytes "5ccc069c403ebaf9f0171e9517f40e41"

/-- The values of the header behind their names. The last one keeps a bracket. -/
def headerValue (username response name : Bytes) : Bytes :=
  if name = bytes "username" then quote :: username ++ [quote]
  else if name = bytes "response" then quote :: response ++ [quote]
  else if name = bytes "realm" then quote :: realm ++ [quote]
  else if name = bytes "nonce" then quote :: Login.nonce ++ [quote]
  else if name = bytes "uri" then quote :: bytes "/login" ++ [quote]
  else if name = bytes "qop" then bytes "auth"
  else quote :: challengeOpaque ++ [quote] ++ bytes ")"

theorem headerValue_username (username response : Bytes) :
    headerValue username response (bytes "username") = quote :: username ++ [quote] := if_pos rfl

theorem headerValue_response (username response : Bytes) :
    headerValue username response (bytes "response") = quote :: response ++ [quote] := by
  rw [headerValue, if_neg (by decide), if_pos rfl]

/-- The other values are the same in every header. -/
theorem headerValue_constant (username response : Bytes) {name : Bytes}
    (h : name ≠ bytes "username" ∧ name ≠ bytes "response") :
    headerValue username response name = headerValue [] [] name := by
  simp only [headerValue, if_neg h.1, if_neg h.2]

theorem authorizationText_eq (username response : Bytes) :
    authorizationText username realm response challengeOpaque = bytes "Digest " ++
      Login.joinedTokens (Login.requiredFields.map fun name =>
        name ++ ch '=' :: headerValue username response name) := by
  have hconstant : ∀ name ∈
      [bytes "realm", bytes "nonce", bytes "uri", bytes "qop", bytes "opaque"],
      headerValue username response name = headerValue [] [] name := fun name hname =>
    headerValue_constant username response (by
      have hall : [bytes "realm", bytes "nonce", bytes "uri", bytes "qop", bytes "opaque"].all
          (fun name => name != bytes "username" && name != bytes "response") = true := by decide
      simpa using List.all_eq_true.mp hall name hname)
  simp only [List.forall_mem_cons] at hconstant
  obtain ⟨hrealm, hnonce, huri, hqop, hopaque, -⟩ := hconstant
  have hlast (text : Bytes) : Login.joinedTokens [text] = text := by
    simp [Login.joinedTokens, List.intercalate]
  -- the three texts around the name and the response
  have hfront : bytes "Digest username=\"" =
      bytes "Digest " ++ (bytes "username" ++ [ch '=', quote]) := by
    decide +kernel
  have hmiddle : bytes "\"," ++ (bytes "realm=\"" ++ (realm ++ (bytes "\"," ++
      (bytes "nonce=\"dcd98b7102dd2f0e8b11d0f600bfb0c093\"," ++ (bytes "uri=\"/login\"," ++
        (bytes "qop=auth," ++ bytes "response=\"")))))) =
      quote :: ch ',' :: (bytes "realm" ++ ch '=' :: (headerValue [] [] (bytes "realm") ++
        ch ',' :: (bytes "nonce" ++ ch '=' :: (headerValue [] [] (bytes "nonce") ++
          ch ',' :: (bytes "uri" ++ ch '=' :: (headerValue [] [] (bytes "uri") ++
            ch ',' :: (bytes "qop" ++ ch '=' :: (headerValue [] [] (bytes "qop") ++
              ch ',' :: (bytes "response" ++ [ch '=', quote]))))))))) := by
    decide +kernel
  have hend : bytes "\"," ++ (bytes "opaque=\"" ++ (challengeOpaque ++ bytes "\")")) =
      quote :: ch ',' :: (bytes "opaque" ++ ch '=' :: headerValue [] [] (bytes "opaque")) := by
    decide +kernel
  calc authorizationText username realm response challengeOpaque
      = bytes "Digest username=\"" ++ (username ++ ((bytes "\"," ++ (bytes "realm=\"" ++ (realm ++
          (bytes "\"," ++ (bytes "nonce=\"dcd98b7102dd2f0e8b11d0f600bfb0c093\"," ++
            (bytes "uri=\"/login\"," ++ (bytes "qop=auth," ++ bytes "response=\""))))))) ++
          (response ++ (bytes "\"," ++ (bytes "opaque=\"" ++ (challengeOpaque ++
            bytes "\")")))))) := by
        simp only [authorizationText, List.append_assoc]
    _ = _ := by
        rw [hfront, hmiddle, hend]
        simp only [Login.requiredFields, List.map_cons, List.map_nil, Login.joinedTokens_cons_cons,
          hlast, headerValue_username, headerValue_response, hrealm, hnonce, huri, hqop, hopaque,
          List.append_assoc, List.cons_append, List.nil_append]

theorem requiredFields_isName : ∀ name ∈ Login.requiredFields, Login.IsName name := by
  have hall : Login.requiredFields.all (fun name => name != [] && name.all isToken) = true := by
    decide +kernel
  intro name hname
  have h := List.all_eq_true.mp hall name hname
  rw [Bool.and_eq_true, bne_iff_ne] at h
  exact ⟨h.1, List.all_eq_true.mp h.2⟩

theorem closed_headerValue {username response : Bytes} (husername : quote ∉ username)
    (hresponse : quote ∉ response) (name : Bytes) :
    Login.Closed (headerValue username response name) := by
  have hplain {text : Bytes} (h : text.all (fun c => c != quote && c != ch ',') = true) :
      Login.Closed text := Login.closed_plain fun c hc => by
    simpa using List.all_eq_true.mp h c hc
  unfold headerValue
  split_ifs
  · exact Login.closed_quoted husername
  · exact Login.closed_quoted hresponse
  · exact Login.closed_quoted (by decide)
  · exact Login.closed_quoted (by decide)
  · exact Login.closed_quoted (by decide)
  · exact hplain (by decide)
  · exact (Login.closed_quoted (by decide)).append (hplain (by decide))

section Header
variable {username response : Bytes} (husername : LoginName username)
  (hresponse : LoginName response)
include husername hresponse

/-- The header holds no control characters. -/
theorem authorizationText_clean :
    ∀ c ∈ authorizationText username realm response challengeOpaque, isControl c = false := by
  have hall {text : Bytes} (h : ∀ c ∈ text, isControl c = false) :
      text.all (fun c => !isControl c) = true := by simpa using h
  have htext : (authorizationText username realm response challengeOpaque).all
      (fun c => !isControl c) = true := by
    simp only [authorizationText, List.all_append, hall husername.control, hall hresponse.control]
    decide +kernel
  simpa using htext

/-- The server reads back the name and the response. -/
theorem authorizationFields_text {request : Request}
    (h : request.headers = [⟨bytes "Authorization",
      authorizationText username realm response challengeOpaque⟩]) :
    ∃ fields, Login.authorizationFields request = some fields ∧
      Login.requiredFields.all fields.contains = true ∧
      fields.getD (bytes "username") [] = username ∧
      fields.getD (bytes "response") [] = response := by
  obtain ⟨fields, hread, hvalues⟩ := Login.digestMd5Parse_named requiredFields_isName
    fun name _ => closed_headerValue husername.quote hresponse.quote name
  have hget : request.getHeader (bytes "Authorization") =
      authorizationText username realm response challengeOpaque := by
    simp [Request.getHeader, h]
  have hclean := authorizationText_clean husername hresponse
  have hscheme : (bytes "Digest ").length = 7 := rfl
  rw [authorizationText_eq] at hget hclean
  have hzero : 0 ∉ Login.joinedTokens (Login.requiredFields.map fun name =>
      name ++ ch '=' :: headerValue username response name) := fun hmem =>
    absurd (hclean 0 (List.mem_append_right _ hmem)) (by decide)
  have hlookup {name : Bytes} (hname : name ∈ Login.requiredFields) {value : Bytes}
      (hvalue : headerValue username response name = quote :: value ++ [quote])
      (htrimmed : Login.Trimmed value) : fields.getD name [] = value := by
    rw [Std.TreeMap.getD_eq_getD_getElem?, hvalues name hname, hvalue,
      Login.trimValue_quoted htrimmed]
    rfl
  refine ⟨fields, ?_, ?_, ?_, ?_⟩
  · rw [Login.authorizationFields, hget, List.length_append, hscheme, if_neg (by omega), ← hscheme,
      List.drop_left, cstr_of_notMem hzero, hread]
  · rw [List.all_eq_true]
    intro name hname
    rw [Std.TreeMap.contains_eq_isSome_getElem?, hvalues name hname]
    rfl
  · exact hlookup (by decide) (headerValue_username username response) husername.trimmed
  · exact hlookup (by decide) (headerValue_response username response) hresponse.trimmed

end Header

/-! ## The requests -/

/-- The headers that the account functions add. -/
def accountHeaders : List Bytes :=
  [bytes "username", bytes "password", bytes "Authorization"]

theorem sendable_get {uri : Bytes} (huri : ∀ c ∈ uri, c ≠ ch ' ' ∧ isControl c = false)
    {headers : List Header}
    (h : ∀ k ∈ headers, k.name ∈ accountHeaders ∧ ∀ c ∈ k.value, isControl c = false) :
    Sendable { method := bytes "GET", uri, headers } := by
  have hnames : accountHeaders.all (fun name =>
      name != [] && name.all isToken && name != contentLengthName) = true := by decide
  have hname {name : Bytes} (hmem : name ∈ accountHeaders) :
      (name ≠ [] ∧ ∀ c ∈ name, isToken c) ∧ name ≠ contentLengthName := by
    simpa using List.all_eq_true.mp hnames name hmem
  have hmethod : bytes "GET" ≠ [] ∧ ∀ c ∈ bytes "GET", isToken c :=
    ⟨by decide, List.all_eq_true.mp (by decide)⟩
  refine ⟨hmethod.1, hmethod.2, huri, fun k hk => ?_, fun k hk => ?_, by simp, by simp⟩
  · obtain ⟨hne, htoken⟩ := (hname (h k hk).1).1
    exact ⟨hne, htoken, (h k hk).2⟩
  · exact (hname (h k hk).1).2

theorem sendable_register {username password : Bytes}
    (husername : ∀ c ∈ username, isControl c = false)
    (hpassword : ∀ c ∈ password, isControl c = false) :
    Sendable (hamAccountRegister username password) := by
  refine sendable_get (by decide) (List.forall_mem_cons.mpr ⟨⟨?_, husername⟩,
    List.forall_mem_singleton.mpr ⟨?_, hpassword⟩⟩)
  · simp [accountHeaders]
  · simp [accountHeaders]

theorem sendable_login : Sendable hamAccountLogin :=
  sendable_get (by decide) (by simp)

theorem sendable_response {authorization : Bytes}
    (h : ∀ c ∈ authorization, isControl c = false) : Sendable (loginRequest authorization) := by
  refine sendable_get (by decide) (List.forall_mem_singleton.mpr ⟨?_, fun c hc =>
    h c (List.mem_of_mem_take hc)⟩)
  simp [accountHeaders]

/-! ## The answers -/

section Server
variable {ι δ ω : Type*} [DecidableEq ι] {backend : SQLite3 δ} {cast : LexicalCast}
  {md5 : Bytes → Bytes} {others : OtherModules ι δ ω}

variable (backend cast md5 others) in
/-- The modules of a server with the login and the register module. -/
abbrev accountManager : ModuleManager ι (ServerState ι δ (Register × ω)) :=
  Gate.manager backend cast md5 (Register.withRegister backend md5 others)

/-- The insert of a registration. -/
def registration (backend : SQLite3 δ) (md5 : Bytes → Bytes)
    (server : ServerState ι δ (Register × ω)) (username password : Bytes) : Bool × δ :=
  backend.insert server.db Register.addUserQuery
    (server.others.1.fill username (Register.passwordHash md5 username password)).m

variable (backend cast md5 others) in
theorem answer_register (sid : ι) (server : ServerState ι δ (Register × ω))
    (username password : Bytes) :
    ∃ reply server', (accountManager backend cast md5 others).answer sid server
        (received (hamAccountRegister username password)) = (reply, server') ∧
      server'.db = (registration backend md5 server username password).2 ∧
      reply = if (registration backend md5 server username password).1 then
          ({} : Reply).setContent (bytes "Registered")
        else (({} : Reply).setStatus .badRequest).setContent
          (bytes "This username is already taken.") := by
  have hcalled : (accountManager backend cast md5 others).called sid server
      (received (hamAccountRegister username password)) =
        some (Gate.otherResponder (Register.responder backend md5 ι ω)) := rfl
  have huri : cutUri (received (hamAccountRegister username password)).uri ≠ bytes "/modules" := by
    change cutUri (bytes "/register") ≠ bytes "/modules"
    decide
  have hhandled : Register.handleRequest backend md5 server.others.1 server.db
      (received (hamAccountRegister username password)) {} =
      (true, server.others.1.fill username (Register.passwordHash md5 username password),
        (registration backend md5 server username password).2,
        if (registration backend md5 server username password).1 then
          ({} : Reply).setContent (bytes "Registered")
        else (({} : Reply).setStatus .badRequest).setContent
          (bytes "This username is already taken.")) := by
    have hmethod : (received (hamAccountRegister username password)).method = bytes "GET" := rfl
    have hname : (received (hamAccountRegister username password)).getHeader (bytes "username") =
        username := rfl
    have hword : (received (hamAccountRegister username password)).getHeader (bytes "password") =
        password := rfl
    rw [Register.handleRequest, if_neg (not_not.mpr hmethod), hname, hword]
    change (if (registration backend md5 server username password).1 then _ else _) = _
    split_ifs <;> rfl
  rw [ModuleManager.answer, ModuleManager.handleRequest, if_neg huri, hcalled]
  simp only [Gate.otherResponder, Register.responder, hhandled, if_true]
  exact ⟨_, _, rfl, rfl, rfl⟩

variable (backend cast md5 others) in
/-- The client's view of a registration: 200 if and only if the user was inserted. -/
theorem exchange_register {username password : Bytes}
    (husername : ∀ c ∈ username, isControl c = false)
    (hpassword : ∀ c ∈ password, isControl c = false) (sid : ι)
    (server : ServerState ι δ (Register × ω)) :
    ∃ reply server', exchange (accountManager backend cast md5 others) sid server
        (hamAccountRegister username password) = some (reply, server') ∧
      server'.db = (registration backend md5 server username password).2 ∧
      (reply.status = 200 ↔ (registration backend md5 server username password).1 = true) := by
  obtain ⟨reply, server', hanswer, hdb, hreply⟩ :=
    answer_register backend cast md5 others sid server username password
  have hshape : WellFormed reply ∧ FitsClient reply ∧ (∃ c ∈ reply.content, c ≠ cr) ∧
      (reply.status.code = 200 ↔ (registration backend md5 server username password).1 = true) := by
    rw [hreply]
    split_ifs with hdone
    · exact ⟨wellFormed_new.setContent _, fitsClient_new.setContent (by decide) (by decide),
        ⟨ch 'R', by decide, by decide⟩, by simp [hdone]; rfl⟩
    · exact ⟨(wellFormed_new.setStatus _).setContent _,
        (fitsClient_new.setStatus _).setContent (by decide) (by decide),
        ⟨ch 'T', by decide, by decide⟩, by simp [hdone]; decide⟩
  obtain ⟨hformed, hfits, hcontent, hstatus⟩ := hshape
  obtain ⟨r, hexchange, hr, -⟩ := exchange_eq _ (sendable_register husername hpassword) hanswer
    hformed hfits hcontent
  exact ⟨r, server', hexchange, hdb, hr ▸ hstatus⟩

/-- The challenge as it is sent. -/
def challengeText : Bytes :=
  bytes "Digest realm=\"realm@hamlog\",qop=\"auth,auth-int\",nonce=\"" ++ Login.nonce ++
    bytes "\",opaque=\"5ccc069c403ebaf9f0171e9517f40e41\""

/-- The client reads the challenge as the server means it. -/
theorem popChallenge_challengeText :
    popChallenge (hamLoginDigestMd5Parse (challengeText.drop 7)) {} =
      ⟨some (bytes "auth,auth-int"), some realm, some Login.nonce, some challengeOpaque⟩ := by
  decide +kernel

theorem html_clean : ∀ c ∈ bytes "text/html", isControl c = false := by decide

theorem createAuthorizationRequest_shape :
    WellFormed (Login.createAuthorizationRequest {}) ∧
      FitsClient (Login.createAuthorizationRequest {}) ∧
      (∃ c ∈ (Login.createAuthorizationRequest {}).content, c ≠ cr) ∧
      (Login.createAuthorizationRequest {}).sentHeaders.find? (·.name == bytes "WWW-Authenticate") =
        some ⟨bytes "WWW-Authenticate", challengeText⟩ := by
  have hchallenge : Header.Clean ⟨bytes "WWW-Authenticate", challengeText⟩ ∧
      challengeText.length < 512 := by decide +kernel
  refine ⟨?_, ?_, ⟨ch 'A', by decide, by decide⟩, rfl⟩
  · exact (((wellFormed_new.addHeader hchallenge.1).setContent _).setStatus _).setContentType
      html_clean
  · exact (((fitsClient_new.addHeader (by decide) hchallenge.2).setContent (by decide)
      (by decide)).setStatus _).setContentType (by decide)

/-- What the login module answers goes to the client, and sets the account of the session. -/
theorem answer_login {sid : ι} {server : ServerState ι δ (Register × ω)} {request : Request}
    (huri : request.uri = bytes "/login") {result : Login.Result δ}
    (h : Login.handleRequest backend cast md5 (server.accounts sid) server.getUser server.db request
      {} = some result) :
    (accountManager backend cast md5 others).answer sid server request =
        (result.reply, { server with
      accounts := Function.update server.accounts sid result.account
      getUser := result.getUser
      db := result.db }) := by
  have hcut : cutUri request.uri = bytes "/login" := by
    rw [huri]
    decide
  have hmodules : cutUri request.uri ≠ bytes "/modules" := by
    rw [hcut]
    decide
  rw [ModuleManager.answer, ModuleManager.handleRequest, if_neg hmodules, Gate.called_login hcut]
  simp only [Gate.loginResponder, h, if_true]

/-- The header of the response to the challenge. -/
def responseText (md5 : Bytes → Bytes) (username password : Bytes) : Bytes :=
  authorizationText username realm (loginResponse md5 username password realm Login.nonce)
    challengeOpaque

variable (backend cast md5 others) in
/-- A login request without the header is answered with the challenge, whatever the state. -/
theorem exchange_login (sid : ι) (server : ServerState ι δ (Register × ω))
    (username password : Bytes) :
    ∃ challenge server', exchange (accountManager backend cast md5 others) sid server
        hamAccountLogin = some (challenge, server') ∧
      hamLoginHandleGetResponse1 md5 username password challenge =
        .send (loginRequest (responseText md5 username password)) := by
  have hresult : Login.handleRequest backend cast md5 (server.accounts sid) server.getUser server.db
      (received hamAccountLogin) {} = some ⟨server.accounts sid, server.getUser, server.db,
        Login.createAuthorizationRequest {}⟩ := rfl
  obtain ⟨hformed, hfits, hcontent, hfind⟩ := createAuthorizationRequest_shape
  obtain ⟨challenge, hexchange, hstatus, hheaders⟩ := exchange_eq
    (accountManager backend cast md5 others) sendable_login (answer_login rfl hresult) hformed hfits
    hcontent
  refine ⟨challenge, _, hexchange, ?_⟩
  have hget : hamReplyGetHeader challenge (bytes "WWW-Authenticate") = some challengeText := by
    rw [hamReplyGetHeader, hheaders, hfind]
    rfl
  have hlong : ¬ challengeText.length < 7 := by decide +kernel
  have hcode : challenge.status = 401 := hstatus
  rw [hamLoginHandleGetResponse1, if_neg (not_not.mpr hcode), hget]
  simp only [hlong, if_false, popChallenge_challengeText]
  rfl

/-! ## The response -/

/-- No two users have one name, as the table was created. -/
def UniqueNames (backend : SQLite3 δ) (db : δ) : Prop :=
  ∀ row ∈ backend.tableRows db Login.usersTable, ∀ other ∈ backend.tableRows db Login.usersTable,
    Login.usersTable.value row (bytes "name") = Login.usersTable.value other (bytes "name") →
      row = other

/-- The only user of a name is the one that is found under it. -/
theorem select_unique {tables : List Table} (hlaw : backend.Lawful tables)
    (ht : Login.usersTable ∈ tables) {db : δ} {getUser : Select} (hquery : Login.QueryOk getUser)
    (hunique : UniqueNames backend db) {row : Row}
    (hrow : row ∈ backend.tableRows db Login.usersTable) {username : Bytes} (hzero : 0 ∉ username)
    (hname : Login.usersTable.value row (bytes "name") = some username)
    (hdone : (backend.select db (getUser.where_ (bytes "name") username)).1 = true) :
    ∃ rest, (backend.select db (getUser.where_ (bytes "name") username)).2.1 =
      [Login.userText row (bytes "password"), Login.userText row (bytes "id")] :: rest := by
  have hok := hquery.where_ username
  obtain ⟨-, huser⟩ := Login.select_user hlaw ht db hquery hzero
  obtain ⟨-, -, hall⟩ := hlaw.select_rows ht db _ hok.table hok.declared hok.filters
  have hsatisfies : backend.satisfies Login.usersTable
      (getUser.where_ (bytes "name") username).wheres.toList row = true := by
    refine SQLite3.satisfies_toList.mpr fun name value hvalue => ?_
    obtain rfl := hok.wheres name value hvalue
    rw [Select.where_, StringMap.getElem?_insert, if_pos rfl] at hvalue
    have htype : Login.usersTable.typeOf (bytes "name") = .string := by decide
    rw [htype, hlaw.equals_string, hname, ← Option.some.inj hvalue, cstr_of_notMem hzero]
  cases hrows : (backend.select db (getUser.where_ (bytes "name") username)).2.1 with
  | nil =>
    rw [hall hdone, List.map_eq_nil_iff, SQLite3.selected, List.map_eq_nil_iff,
      List.filter_eq_nil_iff] at hrows
    exact absurd hsatisfies (hrows row hrow)
  | cons user rest =>
    obtain ⟨other, hother, hsame, rfl⟩ := huser user rest hrows
    obtain rfl := hunique row hrow other hother (hname.trans hsame.symm)
    exact ⟨rest, rfl⟩

/-- What the login module does with the response to the challenge. -/
theorem handleRequest_response {tables : List Table} (hlaw : backend.Lawful tables)
    (ht : Login.usersTable ∈ tables) (hmd5 : HexDigest md5) {username password : Bytes}
    (husername : LoginName username) {db : δ} {getUser : Select} (hquery : Login.QueryOk getUser)
    (hids : Login.AutomaticIds backend db) (hunique : UniqueNames backend db)
    (hdone : (backend.select db (getUser.where_ (bytes "name") username)).1 = true)
    {row : Row} (hrow : row ∈ backend.tableRows db Login.usersTable)
    (hname : Login.usersTable.value row (bytes "name") = some username)
    (hhash : Login.usersTable.value row (bytes "password") =
      some (Register.passwordHash md5 username password)) (account : Account) {request : Request}
    (hheaders : request.headers = [⟨bytes "Authorization", responseText md5 username password⟩]) :
    ∃ id, Login.usersTable.value row (bytes "id") = some (decimal id) ∧
      Login.handleRequest backend cast md5 account getUser db request {} =
        some ⟨⟨true, id, username⟩, getUser.where_ (bytes "name") username,
          (backend.select db (getUser.where_ (bytes "name") username)).2.2,
          (({} : Reply).setContent (bytes "Authorized")).setContentType (bytes "text/html")⟩ := by
  have hzero : 0 ∉ username := fun hmem => absurd (husername.control 0 hmem) (by decide)
  have hresponse : LoginName (loginResponse md5 username password realm Login.nonce) :=
    hmd5.loginName _
  obtain ⟨fields, hfields, hrequired, hfieldName, hfieldResponse⟩ :=
    authorizationFields_text husername hresponse hheaders
  obtain ⟨rest, hselected⟩ := select_unique hlaw ht hquery hunique hrow hzero hname hdone
  obtain ⟨id, hid, hvalue⟩ := hids row hrow
  have hpassword : Login.userText row (bytes "password") =
      Register.passwordHash md5 username password := by
    rw [Login.userText, hhash, Option.getD_some, cstr_of_notMem]
    exact fun hmem => absurd ((hmd5.loginName _).control 0 hmem) (by decide)
  have hidText : Login.userText row (bytes "id") = decimal id := by
    rw [Login.userText, hvalue, Option.getD_some, cstr_decimal]
  have hexpected : Login.expectedResponse md5 (Register.passwordHash md5 username password) =
      loginResponse md5 username password realm Login.nonce := by
    have hrealm : bytes ":realm@hamlog:" = bytes ":" ++ realm ++ bytes ":" := by decide
    simp only [Login.expectedResponse, Register.passwordHash, loginResponse, hrealm,
      List.append_assoc]
  have hheader : request.hasHeader (bytes "Authorization") = true := by
    rw [Request.hasHeader, hheaders]
    simp
  have hcast := cast.read_decimal id (hid.trans (by norm_num : 2 ^ 63 < 2 ^ 64))
  refine ⟨id, hvalue, ?_⟩
  rw [Login.handleRequest, hheader, hfields]
  simp only [Bool.not_true, Bool.false_eq_true, if_false, Option.bind_some, hrequired, hfieldName,
    hselected, Login.checkUser, List.headD_cons, hpassword, hexpected, hfieldResponse, if_true,
    List.getLastD_cons, List.getLastD_nil, hidText, hcast, Option.map_some]

/-- In the states of a run, a registered user who answers the challenge is let in: after a
registration that the client sees answered with 200, whatever happens in between, the two requests
of a login authenticate the session under the name and the identifier of the user. The row of the
user is still there, its name is unique, and the query for it does not fail. -/
theorem login_completes {tables : List Table} (hlaw : backend.Lawful tables)
    (ht : Login.usersTable ∈ tables) (hmd5 : HexDigest md5) {username password : Bytes}
    (husername : LoginName username) (hpassword : ∀ c ∈ password, isControl c = false)
    (hfits : (responseText md5 username password).length < 512) {start : δ} {state : Register × ω}
    {past : List (Gate.Event ι δ (Register × ω))} {server registered : ServerState ι δ (Register × ω)}
    {sid : ι} {reply : HAMReply}
    (hregister : exchange (accountManager backend cast md5 others) sid server
      (hamAccountRegister username password) = some (reply, registered))
    (hok : reply.status = 200) (challenged : ServerState ι δ (Register × ω)) (session : ι)
    {asked : ServerState ι δ (Register × ω)}
    (hasked : Gate.Run backend cast md5 (Register.withRegister backend md5 others) start state
      past asked)
    (hkept : ∀ row ∈ backend.tableRows registered.db Login.usersTable,
      row ∈ backend.tableRows asked.db Login.usersTable)
    (hunique : UniqueNames backend asked.db) (hids : Login.AutomaticIds backend asked.db)
    (hdone : (backend.select asked.db (asked.getUser.where_ (bytes "name") username)).1 = true) :
    ∃ challenge challenged' request reply' asked',
      exchange (accountManager backend cast md5 others) session challenged hamAccountLogin =
        some (challenge, challenged') ∧
      hamLoginHandleGetResponse1 md5 username password challenge = .send request ∧
      exchange (accountManager backend cast md5 others) session asked request = some
          (reply', asked') ∧
      reply'.status = 200 ∧
      ∃ row ∈ backend.tableRows asked.db Login.usersTable, ∃ id,
        Login.usersTable.value row (bytes "name") = some username ∧
        Login.usersTable.value row (bytes "id") = some (decimal id) ∧
        asked'.accounts session = ⟨true, id, username⟩ := by
  have hzero {text : Bytes} (h : ∀ c ∈ text, isControl c = false) : 0 ∉ text := fun hmem =>
    absurd (h 0 hmem) (by decide)
  obtain ⟨_, _, hexchange, hdb, hinserted⟩ := exchange_register backend cast md5 others
    husername.control hpassword sid server
  cases hexchange.symm.trans hregister
  obtain ⟨row, hrow, hname, hhash⟩ := Register.exists_user hlaw ht
    server.others.1 (hzero husername.control)
    (hzero (hmd5.loginName (username ++ bytes ":realm@hamlog:" ++ password)).control)
    (hinserted.mp hok)
  have hmem : row ∈ backend.tableRows asked.db Login.usersTable := hkept row (hdb ▸ hrow)
  obtain ⟨challenge, challenged', hchallenge, hsend⟩ := exchange_login backend cast md5 others
    session challenged username password
  have hclean : ∀ c ∈ responseText md5 username password, isControl c = false :=
    authorizationText_clean husername (hmd5.loginName _)
  have hheaders : (received (loginRequest (responseText md5 username password))).headers =
      [⟨bytes "Authorization", responseText md5 username password⟩] := by
    simp [received, loginRequest, hamAccountLogin, List.take_of_length_le (Nat.le_of_lt_succ hfits)]
  obtain ⟨id, hid, hresult⟩ := handleRequest_response hlaw ht hmd5 husername
    (Gate.guarded_of_run hlaw ht hasked).query hids hunique hdone hmem hname hhash
    (asked.accounts session) hheaders
  have hshape : WellFormed ((({} : Reply).setContent (bytes "Authorized")).setContentType
      (bytes "text/html")) ∧
      FitsClient ((({} : Reply).setContent (bytes "Authorized")).setContentType
        (bytes "text/html")) ∧ (∃ c ∈ bytes "Authorized", c ≠ cr) :=
    ⟨(wellFormed_new.setContent _).setContentType html_clean,
      (fitsClient_new.setContent (by decide) (by decide)).setContentType (by decide),
      ch 'A', by decide, by decide⟩
  obtain ⟨reply', hanswered, hstatus, -⟩ := exchange_eq (accountManager backend cast md5 others)
    (sendable_response hclean) (answer_login rfl hresult) hshape.1 hshape.2.1 hshape.2.2
  exact ⟨challenge, challenged', _, reply', _, hchallenge, hsend, hanswered, hstatus, row, hmem, id,
    hname, hid, Function.update_self _ _ _⟩

end Server

/-! ## A run -/

/-- A name and a password with separators inside. -/
def sampleName : Bytes := bytes "OK1KVK, a=b:c"

def samplePassword : Bytes := bytes " x=\"1\", "

def noUsers : SampleEngine.Database where
  rows _ := []
  lastRowid := 0

theorem sampleMd5_hexDigest : HexDigest Gate.sampleMd5 := by
  have hall : [bytes "315c3fb2f18fd4c6e5a3175e489464ad", bytes "932f3b68feec47bd5d97fca6bfc68d71"].all
      (fun hash => hash.length == 32 && hash.all (bytes "0123456789abcdef").contains) = true := by
    decide +kernel
  have hhash (text : Bytes) : (Gate.sampleMd5 text).length = 32 ∧
      ∀ c ∈ Gate.sampleMd5 text, c ∈ bytes "0123456789abcdef" := by
    have hmem : Gate.sampleMd5 text ∈ [bytes "315c3fb2f18fd4c6e5a3175e489464ad",
        bytes "932f3b68feec47bd5d97fca6bfc68d71"] := by
      unfold Gate.sampleMd5
      split_ifs <;> simp
    simpa using List.all_eq_true.mp hall _ hmem
  exact ⟨fun text => (hhash text).1, fun text => (hhash text).2⟩

abbrev sampleServer : Type := ServerState ℕ SampleEngine.Database (Register × LogBook)

def sampleStart : sampleServer where
  db := noUsers
  others := ({}, {})

/-- Somebody registers over one session and asks for the challenge over another. -/
def sampleAccountEvents : List (Gate.Event ℕ SampleEngine.Database (Register × LogBook)) :=
  [.request 1 (received (hamAccountRegister sampleName samplePassword)),
    .request 2 (received hamAccountLogin)]

def sampleUserRow : Row :=
  [some (decimal 1), some sampleName, some (Register.passwordHash Gate.sampleMd5 sampleName
    samplePassword)]

theorem login_completes_sample : ∃ asked : sampleServer,
    Gate.Run LogBook.sampleBackend Gate.sampleCast Gate.sampleMd5
      (Register.withRegister LogBook.sampleBackend
      Gate.sampleMd5 Gate.sampleModules) noUsers ({}, {}) sampleAccountEvents asked ∧
    ∃ challenge challenged' request reply' asked',
      exchange (accountManager LogBook.sampleBackend Gate.sampleCast Gate.sampleMd5
        Gate.sampleModules) 2 asked hamAccountLogin = some (challenge, challenged') ∧
      hamLoginHandleGetResponse1 Gate.sampleMd5 sampleName samplePassword challenge = .send request ∧
      exchange (accountManager LogBook.sampleBackend Gate.sampleCast Gate.sampleMd5
        Gate.sampleModules) 2 asked request = some (reply', asked') ∧ reply'.status = 200 ∧
      ∃ row ∈ LogBook.sampleBackend.tableRows asked.db Login.usersTable, ∃ id,
        Login.usersTable.value row (bytes "name") = some sampleName ∧
        Login.usersTable.value row (bytes "id") = some (decimal id) ∧
        asked'.accounts 2 = ⟨true, id, sampleName⟩ := by
  have hname : LoginName sampleName :=
    ⟨by decide, by decide, by decide, by decide, by decide⟩
  have hpassword : ∀ c ∈ samplePassword, isControl c = false := by decide
  have hinserted : (registration LogBook.sampleBackend Gate.sampleMd5 sampleStart sampleName
      samplePassword).1 = true ∧ LogBook.sampleBackend.tableRows (registration LogBook.sampleBackend
        Gate.sampleMd5 sampleStart sampleName samplePassword).2 Login.usersTable = [sampleUserRow] := by
    decide +kernel
  have hexec : (System.exec (Gate.system LogBook.sampleBackend Gate.sampleCast Gate.sampleMd5
      (Register.withRegister LogBook.sampleBackend Gate.sampleMd5 Gate.sampleModules) noUsers
        ({}, {})) (fun _ _ => true) sampleStart sampleAccountEvents).any (fun asked =>
      LogBook.sampleBackend.tableRows asked.db Login.usersTable == [sampleUserRow] &&
        (LogBook.sampleBackend.select asked.db
          (asked.getUser.where_ (bytes "name") sampleName)).1) = true := by decide +kernel
  obtain ⟨asked, hrun, hchecked⟩ := System.exists_run_of_exec hexec
  rw [Bool.and_eq_true, beq_iff_eq] at hchecked
  obtain ⟨reply, registered, hregister, hdb, hstatus⟩ := exchange_register
    LogBook.sampleBackend Gate.sampleCast Gate.sampleMd5 Gate.sampleModules
    hname.control hpassword 1 sampleStart
  have hsingle {row : Row} (hrow : row ∈ LogBook.sampleBackend.tableRows asked.db
      Login.usersTable) : row = sampleUserRow := by
    rw [hchecked.1] at hrow
    exact List.mem_singleton.mp hrow
  refine ⟨asked, hrun, login_completes LogBook.sampleBackend_lawful (by decide) sampleMd5_hexDigest
    hname hpassword (by decide +kernel) hregister (hstatus.mpr hinserted.1) asked 2 hrun ?_ ?_ ?_
    hchecked.2⟩
  · intro row hrow
    rw [hdb, hinserted.2] at hrow
    rwa [hchecked.1]
  · intro row hrow other hother _
    rw [hsingle hrow, hsingle hother]
  · intro row hrow
    rw [hsingle hrow]
    exact ⟨1, by norm_num, by decide +kernel⟩

end Hamlog.Wire
