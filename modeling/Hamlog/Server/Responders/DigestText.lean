import Hamlog.Server.Responders.Login

/-! # Texts of digest fields

A text `name="value",...` is taken apart into the fields it was put together
from: no token is cut at a comma between quotes, and a value that is trimmed
already is stored as it is.
-/
namespace Hamlog.Server.Login
open Foundation Wire StorageBackend

/-- A text that ends outside of quotes and holds no comma outside of them. -/
def Closed (text : Bytes) : Prop :=
  ∀ rest, token false (text ++ rest) = (text ++ (token false rest).1, (token false rest).2)

theorem token_plain (quotes : Bool) {text : Bytes}
    (h : ∀ c ∈ text, c ≠ quote ∧ (quotes = false → c ≠ ch ',')) (rest : Bytes) :
    token quotes (text ++ rest) = (text ++ (token quotes rest).1, (token quotes rest).2) := by
  induction text with
  | nil => rfl
  | cons c text ih =>
    obtain ⟨hquote, hcomma⟩ := h c List.mem_cons_self
    have hrest := ih fun d hd => h d (List.mem_cons_of_mem _ hd)
    have hstop : (!quotes && c == ch ',') = false := by
      cases quotes with
      | false => simpa using hcomma rfl
      | true => rfl
    rw [List.cons_append, token, if_neg (by simp [hstop]), if_neg hquote, hrest]
    rfl

theorem token_quote (quotes : Bool) (rest : Bytes) :
    token quotes (quote :: rest) = (quote :: (token (!quotes) rest).1, (token (!quotes) rest).2) := by
  have hcomma : (quote == ch ',') = false := by decide
  rw [token, hcomma, Bool.and_false, if_neg Bool.false_ne_true, if_pos rfl]

theorem Closed.append {a b : Bytes} (ha : Closed a) (hb : Closed b) : Closed (a ++ b) := by
  intro rest
  rw [List.append_assoc, ha, hb, List.append_assoc]

theorem closed_plain {text : Bytes} (h : ∀ c ∈ text, c ≠ quote ∧ c ≠ ch ',') : Closed text :=
  fun rest => token_plain false (fun c hc => ⟨(h c hc).1, fun _ => (h c hc).2⟩) rest

theorem closed_quoted {text : Bytes} (h : quote ∉ text) :
    Closed (quote :: text ++ [quote]) := by
  intro rest
  have hplain : ∀ c ∈ text, c ≠ quote ∧ (true = false → c ≠ ch ',') := fun c hc =>
    ⟨fun heq => h (heq ▸ hc), fun hfalse => absurd hfalse (by simp)⟩
  have hinside := token_plain true hplain (quote :: rest)
  rw [List.cons_append, List.cons_append, List.append_assoc, token_quote, Bool.not_false,
    List.singleton_append, hinside, token_quote, Bool.not_true]
  simp

/-- A token that the loop finds as it was written. -/
structure IsToken (text : Bytes) : Prop where
  closed : Closed text
  starts : ∃ c rest, text = c :: rest ∧ (isBlank c || c == ch ',') = false

def joinedTokens (tokens : List Bytes) : Bytes := List.intercalate [ch ','] tokens

theorem joinedTokens_cons_cons (token next : Bytes) (tokens : List Bytes) :
    joinedTokens (token :: next :: tokens) = token ++ ch ',' :: joinedTokens (next :: tokens) := by
  simp [joinedTokens, List.intercalate]

theorem joinedTokens_starts {token : Bytes} (tokens : List Bytes) (h : IsToken token) :
    ∃ c rest, joinedTokens (token :: tokens) = c :: rest ∧ (isBlank c || c == ch ',') = false := by
  obtain ⟨c, rest, rfl, hc⟩ := h.starts
  cases tokens with
  | nil => exact ⟨c, rest, by simp [joinedTokens, List.intercalate], hc⟩
  | cons next tokens => exact ⟨c, _, by rw [joinedTokens_cons_cons]; rfl, hc⟩

/-- The loop finds the tokens between the commas. -/
theorem digestTokens_joined {tokens : List Bytes} (h : ∀ text ∈ tokens, IsToken text) {fuel : ℕ}
    (hfuel : (joinedTokens tokens).length ≤ fuel) :
    digestTokens fuel (joinedTokens tokens) = tokens := by
  have hnil (n : ℕ) : digestTokens n [] = [] := by cases n <;> rfl
  induction tokens generalizing fuel with
  | nil => exact hnil fuel
  | cons text tokens ih =>
    have htext := h text List.mem_cons_self
    obtain ⟨c, rest, hstarts, -⟩ := joinedTokens_starts tokens htext
    cases fuel with
    | zero => simp [hstarts] at hfuel
    | succ fuel =>
      have hne : (joinedTokens (text :: tokens)).isEmpty = false := by simp [hstarts]
      rw [digestTokens, if_neg (by simp [hne])]
      cases tokens with
      | nil =>
        have hself := htext.closed []
        rw [List.append_nil] at hself
        have hjoined : joinedTokens [text] = text := by simp [joinedTokens, List.intercalate]
        simp only [hjoined, hself, token, List.append_nil, List.drop_nil, List.dropWhile_nil, hnil]
      | cons next tokens =>
        have hcut : token false (ch ',' :: joinedTokens (next :: tokens)) =
            ([], ch ',' :: joinedTokens (next :: tokens)) := by simp [token]
        have hnext := h next (List.mem_cons_of_mem _ List.mem_cons_self)
        obtain ⟨d, rest', hbegin, hd⟩ := joinedTokens_starts tokens hnext
        have hdrop : (joinedTokens (next :: tokens)).dropWhile
            (fun c => isBlank c || c == ch ',') = joinedTokens (next :: tokens) := by
          rw [hbegin, List.dropWhile_cons_of_neg (by simp [hd])]
        have hfirst := htext.closed (ch ',' :: joinedTokens (next :: tokens))
        rw [hcut, List.append_nil] at hfirst
        simp only [joinedTokens_cons_cons text, hfirst, List.drop_one, List.tail_cons, hdrop]
        refine congrArg _ (ih (fun other hother => h other (List.mem_cons_of_mem _ hother)) ?_)
        rw [joinedTokens_cons_cons, List.length_append, List.length_cons] at hfuel
        omega

/-! ## Fields -/

/-- A value that trimming leaves as it is. -/
structure Trimmed (value : Bytes) : Prop where
  head : ∀ c ∈ value.head?, (isBlank c || c == quote) = false
  last : ∀ c ∈ value.getLast?, (isBlank c || c == ch ',' || c == quote) = false

theorem trimValue_self {value : Bytes} (h : Trimmed value) : trimValue value = value := by
  have hdrop : (value.dropWhile fun c => isBlank c || c == quote) = value := by
    cases value with
    | nil => rfl
    | cons c value => exact List.dropWhile_cons_of_neg (by simp [h.head c rfl])
  rw [trimValue, hdrop]
  rcases List.eq_nil_or_concat value with rfl | ⟨front, c, rfl⟩
  · rfl
  · rw [List.concat_eq_append, List.rdropWhile_concat_neg]
    simp [h.last c (by simp)]

theorem trimValue_quoted {value : Bytes} (h : Trimmed value) :
    trimValue (quote :: value ++ [quote]) = value := by
  have hself := trimValue_self h
  have hopen (rest : Bytes) : ((quote :: rest).dropWhile fun c => isBlank c || c == quote) =
      rest.dropWhile fun c => isBlank c || c == quote := List.dropWhile_cons_of_pos (by simp)
  rw [trimValue] at hself ⊢
  cases value with
  | nil =>
    rw [List.cons_append, hopen, List.nil_append, hopen, List.dropWhile_nil, List.rdropWhile_nil]
  | cons c value =>
    have hc := h.head c rfl
    have hstop (rest : Bytes) : ((c :: rest).dropWhile fun c => isBlank c || c == quote) =
        c :: rest := List.dropWhile_cons_of_neg (by simp [hc])
    rw [hstop] at hself
    rw [List.cons_append, hopen, List.cons_append, hstop, ← List.cons_append,
      List.rdropWhile_concat_pos _ _ _ (by simp), hself]

/-- A field is stored under its name. -/
theorem storeToken_field (ret : StringMap) {name : Bytes} (hne : name ≠ []) (hname : ch '=' ∉ name)
    (value : Bytes) :
    storeToken ret (name ++ ch '=' :: value) = some (ret.insert name (trimValue value)) := by
  have hall : ∀ c ∈ name, decide (c ≠ ch '=') = true := fun c hc =>
    decide_eq_true fun heq => hname (heq ▸ hc)
  have htake : (name ++ ch '=' :: value).takeWhile (fun c => decide (c ≠ ch '=')) = name := by
    rw [List.takeWhile_append_of_pos hall]
    simp
  have hdrop : (name ++ ch '=' :: value).dropWhile (fun c => decide (c ≠ ch '=')) =
      ch '=' :: value := by
    rw [List.dropWhile_append_of_pos hall]
    simp
  simp only [storeToken, htake, hdrop, List.isEmpty_eq_false_iff.mpr hne, Bool.false_eq_true,
    if_false]

/-- A name that no loop of the parser cuts. -/
structure FieldName (name : Bytes) : Prop where
  ne_nil : name ≠ []
  plain : ∀ c ∈ name, c ≠ ch '=' ∧ c ≠ ch ',' ∧ c ≠ quote ∧ isBlank c = false

/-- A name that the header grammar calls a token. -/
def IsName (name : Bytes) : Prop := name ≠ [] ∧ ∀ c ∈ name, isToken c

theorem IsName.fieldName {name : Bytes} (h : IsName name) : FieldName name := by
  refine ⟨h.1, fun c hc => ?_⟩
  have hne : ∀ d ∈ [ch '=', ch ',', quote, ch ' ', ch '\t', ch '\r', ch '\n'], c ≠ d :=
    fun d hd => ne_of_isToken (h.2 c hc) (by
      have hall : [ch '=', ch ',', quote, ch ' ', ch '\t', ch '\r', ch '\n'].all
          (fun d => !isToken d) = true := by decide
      simpa using List.all_eq_true.mp hall d hd)
  simpa [isBlank, and_assoc] using hne

/-- The text of a field. -/
def fieldText (field : Bytes × Bytes) : Bytes := field.1 ++ ch '=' :: field.2

theorem isToken_field {field : Bytes × Bytes} (hname : FieldName field.1)
    (hvalue : Closed field.2) : IsToken (fieldText field) := by
  have hplain : Closed (field.1 ++ [ch '=']) := closed_plain fun c hc => by
    rcases List.mem_append.mp hc with hc | hc
    · exact ⟨(hname.plain c hc).2.2.1, (hname.plain c hc).2.1⟩
    · obtain rfl := List.mem_singleton.mp hc
      decide
  refine ⟨?_, ?_⟩
  · have happend := hplain.append hvalue
    rwa [List.append_assoc] at happend
  · obtain ⟨c, rest, hstarts⟩ := List.exists_cons_of_ne_nil hname.ne_nil
    have hc := hname.plain c (hstarts ▸ List.mem_cons_self)
    exact ⟨c, rest ++ ch '=' :: field.2, by rw [fieldText, hstarts, List.cons_append],
      by simp [hc.2.1, hc.2.2.2]⟩

theorem foldlM_storeToken_fields {fields : List (Bytes × Bytes)}
    (h : ∀ field ∈ fields, FieldName field.1) (ret : StringMap) :
    (fields.map fieldText).foldlM storeToken ret =
      some (fields.foldl (fun ret field => ret.insert field.1 (trimValue field.2)) ret) := by
  induction fields generalizing ret with
  | nil => rfl
  | cons field fields ih =>
    have hname := h field List.mem_cons_self
    have hequals : ch '=' ∉ field.1 := fun hmem => (hname.plain _ hmem).1 rfl
    rw [List.map_cons, List.foldlM_cons, fieldText, storeToken_field ret hname.ne_nil hequals,
      List.foldl_cons, ← ih (fun other hother => h other (List.mem_cons_of_mem _ hother))]
    rfl

theorem digestTokens_fields {fields : List (Bytes × Bytes)}
    (h : ∀ field ∈ fields, FieldName field.1 ∧ Closed field.2) :
    let text := joinedTokens (fields.map fieldText)
    digestTokens text.length text = fields.map fieldText := by
  refine digestTokens_joined (fun text htext => ?_) le_rfl
  obtain ⟨field, hfield, rfl⟩ := List.mem_map.mp htext
  exact isToken_field (h field hfield).1 (h field hfield).2

/-- A list of fields is read back, each value without the blanks and quotes around it. -/
theorem digestMd5Parse_fields {fields : List (Bytes × Bytes)}
    (h : ∀ field ∈ fields, FieldName field.1 ∧ Closed field.2) :
    digestMd5Parse (joinedTokens (fields.map fieldText)) =
      some (fields.foldl (fun ret field => ret.insert field.1 (trimValue field.2)) ∅) := by
  rw [digestMd5Parse, digestLoop_eq_foldlM, digestTokens_fields h]
  exact foldlM_storeToken_fields (fun field hfield => (h field hfield).1) ∅

/-- A field for each of some names is read back under its name. -/
theorem digestMd5Parse_named {names : List Bytes} (h : ∀ name ∈ names, IsName name)
    {value : Bytes → Bytes} (hvalue : ∀ name ∈ names, Closed (value name)) :
    ∃ fields, digestMd5Parse (joinedTokens (names.map fun name => name ++ ch '=' :: value name)) =
        some fields ∧
      ∀ name ∈ names, fields[name]? = some (trimValue (value name)) := by
  have hfields : ∀ field ∈ names.map (fun name => (name, value name)),
      FieldName field.1 ∧ Closed field.2 := by
    intro field hfield
    obtain ⟨name, hname, rfl⟩ := List.mem_map.mp hfield
    exact ⟨(h name hname).fieldName, hvalue name hname⟩
  have hread := digestMd5Parse_fields hfields
  rw [List.map_map, List.foldl_map] at hread
  refine ⟨_, hread, fun name hname => ?_⟩
  rw [StringMap.getElem?_foldl_insert ∅ (fun name => trimValue (value name)), if_pos hname]

end Hamlog.Server.Login
