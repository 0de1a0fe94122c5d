import Hamlog.Wire.LoginExchange

/-! # Exchanges with a content

What the client's handler is given of an answer with a content, and the requests
for which this holds. The server may answer with any status.
-/
namespace Hamlog.Wire
open Foundation Library Server

variable {κ σ : Type*} {manager : ModuleManager κ σ}

/-- What the server reads of a request that the client sends. -/
def asked (request : HAMRequest) : Request :=
  (RequestParser.parse .methodStart {} (hamRequestGetData request)).2.2

theorem asked_eq {request : HAMRequest} (h : Sendable request) :
    asked request = received request := by
  rw [asked, RequestParser.parse_initial_eq, parse_hamRequestGetData h]

/-- An exchange leads to the state behind the answer. -/
theorem exchange_state {context : κ} {state state' : σ} {request : HAMRequest} {reply : HAMReply}
    (h : exchange manager context state request = some (reply, state')) :
    (manager.answer context state (asked request)).2 = state' := by
  rw [exchange] at h
  dsimp only at h
  split_ifs at h
  obtain ⟨parsed, -, hfinished⟩ := Option.bind_eq_some_iff.mp h
  split_ifs at hfinished
  exact (Prod.mk.inj (Option.some.inj hfinished)).2

/-- The reply as the client stores it is what its handler is given. -/
theorem exchange_reply {context : κ} {state : σ} {request : HAMRequest}
    (hrequest : Sendable request) {reply : Reply} {state' : σ}
    (hanswer : manager.answer context state (received request) = (reply, state'))
    (h : WellFormed reply) (hfit : FitsClient reply)
    (hcontent : reply.content = [] ∨ ∃ c ∈ reply.content, c ≠ cr) :
    ∃ r : HAMReply, exchange manager context state request = some (r, state') ∧
      r.status = reply.status.code ∧ hamReplyGetContent r = reply.content.filter (· ≠ cr) := by
  obtain ⟨⟨q, r, hparse, -, hfinished, hstatus, -, htext⟩, -⟩ :=
    hamParserParse_toString reply {} ⟨rfl, rfl⟩ h hfit hcontent
  have hparsed : (RequestParser.parse .methodStart {} (hamRequestGetData request)).2.2 =
      received request := by
    rw [RequestParser.parse_initial_eq, parse_hamRequestGetData hrequest]
  refine ⟨r, ?_, hstatus, htext⟩
  rw [exchange]
  dsimp only
  rw [hparsed, hanswer]
  simp [received, hparse, hfinished]

end Hamlog.Wire
