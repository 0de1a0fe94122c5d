import Hamlog.Server.RequestRuns

/-! # Where the content of a request ends

Behind the blank line of a request that has a `Content-Length` header the
parser reads the content up to a carriage return, whatever length the header
declares. A body is framed by its length exactly when it is not empty and
holds no carriage return.
-/
namespace Hamlog.Wire
open Foundation Server Server.RequestParser

/-- The header `Content-Length` is there and its digits stand for `n`. -/
structure DeclaresLength (req : Request) (n : ℕ) : Prop where
  hasHeader : req.hasHeader contentLengthName = true
  digits : ∀ c ∈ req.getHeader contentLengthName, isDigit c = true
  ne_nil : req.getHeader contentLengthName ≠ []
  value : decimalValue (req.getHeader contentLengthName) = n

/-- A request head, from its first byte to its blank line, that the parser accepts and that
declares a content of `n` bytes. -/
def AcceptedHead (head : Bytes) (n : ℕ) : Prop :=
  ∃ req, parse .methodStart {} head = (head.length, .contentStart, req) ∧ DeclaresLength req n

/-- The body ends where the length says: the request is finished by the line end behind the body
and holds the body, and what follows is left for the next request. -/
def FramesBody (head body : Bytes) : Prop :=
  ∀ next, ∃ req, parse .methodStart {} (head ++ body ++ crlf ++ next) =
    ((head ++ body ++ crlf).length, .methodStart, req) ∧
      req.finished = true ∧ req.content = body

/-- A content is only collected in the two content states and never holds a carriage return. -/
def ContentInv (s : State × Request) : Prop :=
  cr ∉ s.2.content ∧ (s.2.content = [] ∨ s.1 = .content ∨ s.1 = .expectingNewline4 ∨
    s.2.finished = true)

theorem contentInv_initial : ContentInv initial := ⟨by simp [initial], .inl rfl⟩

theorem contentInv_handleChar {state state' : State} {req req' : Request} {input : Byte}
    (hi : ContentInv (state, req)) (h : handleChar state req input = some (state', req')) :
    ContentInv (state', req') := by
  obtain ⟨hcr, hwhere⟩ := hi
  refine ⟨?_, ?_⟩
  · rcases handleChar_content h with hc | ⟨-, hne, -, hc⟩
    · rwa [hc]
    · rw [hc]
      simpa [hcr] using Ne.symm hne
  · rcases handleChar_content h with hc | ⟨-, -, hs, -⟩
    · cases state <;> simp only [handleChar, expect, Request.pushName, Request.pushValue] at h
      case uriStart => cases h
      all_goals
        split_ifs at h <;> cases h <;> simp_all
    · exact .inr (.inl hs)

theorem contentInv_parse (data : Bytes) : ContentInv (decoder.parse initial data).state :=
  decoder.parse_invariant ContentInv
    (fun _ _ _ hi h => contentInv_handleChar hi (handleChar_of_step h)) contentInv_initial data

/-- A head that is read to its end into the content state is read silently. -/
theorem AcceptedHead.parse {head : Bytes} {n : ℕ} (h : AcceptedHead head n) :
    ∃ req, decoder.parse initial head = .more (.contentStart, req) ∧ DeclaresLength req n ∧
      req.finished = false ∧ req.content = [] := by
  obtain ⟨req, hp, hn⟩ := h
  have hstate := parse_state hp
  have hinv := contentInv_parse head
  rw [hstate] at hinv
  rw [parse_initial_eq] at hp
  cases hd : decoder.parse initial head with
  | more t =>
    rw [hd] at hstate
    obtain rfl : t = (.contentStart, req) := hstate
    have hf : req.finished = false := decoder.more_unfinished rfl hd
    exact ⟨req, rfl, hn, hf, by simpa [hf] using hinv.2⟩
  | done t rest =>
    -- finishing a request leads back to the first state, never into a content
    have ht := done_methodStart hd
    rw [hd] at hstate
    rw [show t = _ from hstate] at ht
    cases ht
  | fail t e rest =>
    rw [hd] at hp
    simp only [Prod.mk.injEq] at hp
    have : head = [] := List.length_eq_zero_iff.mp hp.1.symm
    simp [this] at hd

/-- A request frames its body by the declared length exactly when the body is not empty and has
no carriage return. -/
theorem framesBody_iff {head body : Bytes} (h : AcceptedHead head body.length) :
    FramesBody head body ↔ body ≠ [] ∧ cr ∉ body := by
  obtain ⟨req, hhead, hlen, hf, hc⟩ := h.parse
  constructor
  · intro hframe
    obtain ⟨req', hp, -, hbody⟩ := hframe []
    have hstate := parse_state hp
    refine ⟨?_, ?_⟩
    · rintro rfl
      -- Without a body the line end is taken for another blank line.
      have hall := decoder.more_trans hhead (parse_emptyLine (.inr rfl) req hf hlen.hasHeader)
      simp [hall, Outcome.state] at hstate
    · have hinv := contentInv_parse (head ++ body ++ crlf ++ [])
      rw [hstate] at hinv
      exact hbody ▸ hinv.1
  · rintro ⟨hne, hcr⟩ next
    have hbody : decoder.parse initial (head ++ (body ++ crlf)) =
        .done (.methodStart, { req with content := body, finished := true }) [] := by
      rw [decoder.parse_append_more hhead, parse_content req hf hc hne hcr]
    refine ⟨{ req with content := body, finished := true }, ?_, rfl, rfl⟩
    rw [parse_initial_eq, List.append_assoc head, decoder.parse_append_done hbody next]
    simp only [List.nil_append, List.length_append, Prod.mk.injEq, and_true]
    omega

/-- The head of a call sign lookup with the given text as its declared length. -/
def lookupHead (length : String) : Bytes :=
  bytes "POST /dxcc HTTP/1.1\r\nContent-Length: " ++ bytes length ++ bytes "\r\n\r\n"

theorem lookupHead_accepted : AcceptedHead (lookupHead "6") (bytes "ok2jrq").length :=
  ⟨(parse .methodStart {} (lookupHead "6")).2.2, by decide, by decide,
    List.all_eq_true.mp (by decide), by decide, by decide⟩

theorem framesBody_ok2jrq :
    AcceptedHead (lookupHead "6") (bytes "ok2jrq").length ∧
      (FramesBody (lookupHead "6") (bytes "ok2jrq") ↔
        bytes "ok2jrq" ≠ [] ∧ cr ∉ bytes "ok2jrq") :=
  ⟨lookupHead_accepted, framesBody_iff lookupHead_accepted⟩

/-- The client's lookup of an empty call sign is never finished by its own bytes. -/
theorem not_framesBody_empty :
    ¬ ∀ head body, AcceptedHead head body.length → FramesBody head body := by
  intro h
  have haccepted : AcceptedHead (lookupHead "0") ([] : Bytes).length :=
    ⟨(parse .methodStart {} (lookupHead "0")).2.2, by decide, by decide,
      List.all_eq_true.mp (by decide), by decide, by decide⟩
  obtain ⟨req, hp, -⟩ := h _ _ haccepted []
  have : (parse .methodStart {} (lookupHead "0" ++ [] ++ crlf ++ [])).2.1 = .contentStart := by
    decide
  rw [hp] at this
  cases this

end Hamlog.Wire
