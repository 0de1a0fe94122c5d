import Hamlog.Server.Reply
import Hamlog.Server.RequestParser

/-! # Dispatch of requests to modules

`ModuleManager` finds the responder of a request by the first part of its URI
and refuses a responder that needs authentication to a session that is not
authenticated. Responders work on a state of type `σ`, and are told about the
session and the reply by a value of type `κ`.
-/
namespace Hamlog.Server
open Foundation

/-- `Module::Type`. -/
inductive ModuleType where
  | unknown | callinfo | dxcluster
  deriving DecidableEq, Repr

def ModuleType.toNat : ModuleType → ℕ
  | .unknown => 0
  | .callinfo => 1
  | .dxcluster => 2

/-- `RequestResponder`. Its answer says whether the request was handled. -/
structure Responder (κ σ : Type*) where
  uri : Bytes
  name : Bytes
  description : Bytes := []
  type : ModuleType := .unknown
  needAuthentication : Bool := true
  handleRequest : κ → σ → Request → Reply → Bool × Reply × σ

/-- The URI up to the first `/` behind its first character. -/
def cutUri : Bytes → Bytes
  | [] => []
  | c :: rest => c :: rest.takeWhile (· ≠ ch '/')

/-- `modules` are the values of the map `m_modules`, which has one responder for each URI. -/
structure ModuleManager (κ σ : Type*) where
  modules : List (Responder κ σ)
  isAuthenticated : κ → σ → Bool

namespace ModuleManager
variable {κ σ : Type*} (manager : ModuleManager κ σ)

def find (uri : Bytes) : Option (Responder κ σ) := manager.modules.find? (·.uri == uri)

/-- The CSV line of a module. -/
def moduleLine (responder : Responder κ σ) : Bytes :=
  responder.uri ++ bytes ";" ++ responder.name ++ bytes ";" ++ responder.description ++
    bytes ";" ++ decimal responder.type.toNat ++ bytes ";" ++
    bytes (if responder.needAuthentication then "1;" else "0;") ++ bytes "\n"

/-- The list of modules, without its last line end. -/
def sendModulesList (reply : Reply) : Reply :=
  reply.setContent
    (bytes "uri;name;desc;type;need_auth\n" ++ manager.modules.flatMap moduleLine).dropLast

/-- The responder whose `handleRequest` is called for a request. -/
def called (context : κ) (state : σ) (request : Request) : Option (Responder κ σ) :=
  let uri := cutUri request.uri
  if uri = bytes "/modules" then none
  else (manager.find uri).filter fun responder =>
    !responder.needAuthentication || manager.isAuthenticated context state

def handleRequest (context : κ) (state : σ) (request : Request) (reply : Reply) :
    Bool × Reply × σ :=
  if cutUri request.uri = bytes "/modules" then (true, manager.sendModulesList reply, state)
  else
    match manager.called context state request with
    | none => (false, reply, state)
    | some responder => responder.handleRequest context state request reply

/-- `RequestHandler::handleRequest`: a new reply, filled by a module or by a refusal. -/
def answer (context : κ) (state : σ) (request : Request) : Reply × σ :=
  let handled := manager.handleRequest context state request {}
  if handled.1 then handled.2
  else (((handled.2.1).setStatus .badRequest).setContent (bytes "Bad request"), handled.2.2)

variable {manager}

theorem called_mem {context : κ} {state : σ} {request : Request} {responder : Responder κ σ}
    (h : manager.called context state request = some responder) :
    responder ∈ manager.modules ∧ responder.uri = cutUri request.uri ∧
      (responder.needAuthentication = true → manager.isAuthenticated context state = true) := by
  unfold called at h
  dsimp only at h
  split_ifs at h
  rw [Option.filter_eq_some_iff, find] at h
  obtain ⟨hfind, hauth⟩ := h
  refine ⟨List.mem_of_find?_eq_some hfind, by simpa using List.find?_some hfind, fun hneed => ?_⟩
  simpa [hneed] using hauth

/-- Only the responder that is called changes the state. -/
theorem answer_state (context : κ) (state : σ) (request : Request) :
    (manager.answer context state request).2 =
      match manager.called context state request with
      | none => state
      | some responder => (responder.handleRequest context state request {}).2.2 := by
  have hanswer : (manager.answer context state request).2 =
      (manager.handleRequest context state request {}).2.2 := by
    unfold answer
    dsimp only
    split_ifs <;> rfl
  rw [hanswer, handleRequest]
  split_ifs with huri
  · rw [called]
    dsimp only
    rw [if_pos huri]
  · cases manager.called context state request <;> rfl

/-- What holds of a new reply and of the list of modules, of the results of the responder that is
called, and whatever status and content a reply has, holds of the answer. -/
theorem answer_rule {P : Reply → σ → Prop} (context : κ) (state : σ) (request : Request)
    (hfill : ∀ reply s status content, P reply s →
      P ((reply.setStatus status).setContent content) s)
    (hnew : P {} state)
    (hcalled : ∀ responder, manager.called context state request = some responder →
      P (responder.handleRequest context state request {}).2.1
        (responder.handleRequest context state request {}).2.2) :
    P (manager.answer context state request).1 (manager.answer context state request).2 := by
  have hhandled : P (manager.handleRequest context state request {}).2.1
      (manager.handleRequest context state request {}).2.2 := by
    unfold handleRequest
    split_ifs
    · exact hfill {} state .ok _ hnew
    · cases h : manager.called context state request with
      | none => exact hnew
      | some responder => exact hcalled responder h
  unfold answer
  dsimp only
  split_ifs
  · exact hhandled
  · exact hfill _ _ _ _ hhandled

end ModuleManager
end Hamlog.Server
