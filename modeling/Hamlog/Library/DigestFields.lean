import Hamlog.Library.Account
import Hamlog.Server.Responders.DigestText
import Hamlog.Server.Responders.DigestWalk

/-! # Fields of a digest on both sides

The client stores the fields of a digest in a list, the last one first, and pops
it two items at a time. Both parsers are run over the memory block of their
argument; what they make of a text of quoted fields is said by the fields.
-/
namespace Hamlog.Library
open Foundation Wire Server.Login

/-- The value and then the name get in front of the list. -/
def pushField (ret : List (Option Bytes)) (name : Bytes) (value : Option Bytes) :
    List (Option Bytes) :=
  some name :: value :: ret

/-- `ham_login_digest_md5_parse` over the memory block of its argument. -/
def hamLoginDigestMd5ParseAt (digest : Bytes) : Except WalkFault (List (Option Bytes)) :=
  digestWalk pushField (stored digest) (turns (stored digest)) [] 0

theorem insertToken_eq (ret : List (Option Bytes)) (token : Bytes) :
    insertToken ret token = storeField pushField ret token := by
  rw [insertToken, storeField, fieldValue]
  cases token.dropWhile (· ≠ ch '=') <;> rfl

/-- The client's parser stays within its block and ends, whatever the text holds. -/
theorem hamLoginDigestMd5ParseAt_eq {digest : Bytes} (h : 0 ∉ digest) :
    hamLoginDigestMd5ParseAt digest = .ok (hamLoginDigestMd5Parse digest) := by
  have hfuel : digest.length < turns (stored digest) := by
    rw [turns, stored, List.length_append]
    omega
  have hinsert : insertToken = storeField pushField := funext₂ insertToken_eq
  rw [hamLoginDigestMd5Parse, hinsert]
  exact digestWalk_eq pushField h [] [] hfuel

/-- The names and values that the loop over a list pops, up to the first null pointer. -/
def poppedPairs : List (Option Bytes) → List (Bytes × Bytes)
  | some name :: some value :: list => (name, value) :: poppedPairs list
  | _ => []

theorem poppedPairs_flatMap (pairs : List (Bytes × Bytes)) (rest : List (Option Bytes)) :
    poppedPairs ((pairs.flatMap fun pair => [some pair.1, some pair.2]) ++ rest) =
      pairs ++ poppedPairs rest := by
  induction pairs with
  | nil => rfl
  | cons pair pairs ih => exact congrArg (pair :: ·) ih

theorem popChallenge_eq (list : List (Option Bytes)) (challenge : Challenge) :
    popChallenge list challenge =
      (poppedPairs list).foldl (fun challenge pair => challenge.set pair.1 pair.2) challenge := by
  induction list, challenge using popChallenge.induct with
  | case1 challenge name value list ih => exact ih
  | case2 list challenge hnot =>
    rw [popChallenge, poppedPairs]
    · rfl
    · exact hnot
    · exact hnot

/-! ## Quoted fields -/

/-- A pair that a text of quoted fields can carry. -/
structure Quotable (pair : Bytes × Bytes) : Prop where
  name : FieldName pair.1
  name_text : 0 ∉ pair.1
  value_quote : quote ∉ pair.2
  value_control : ∀ c ∈ pair.2, isControl c = false
  value_head : pair.2.head? ≠ some (ch ' ')
  value_last : pair.2.getLast? ≠ some (ch ' ') ∧ pair.2.getLast? ≠ some (ch ',')

/-- The text `name="value"` of a pair. -/
def quotedField (pair : Bytes × Bytes) : Bytes := fieldText (pair.1, quote :: pair.2 ++ [quote])

def quotedFields (pairs : List (Bytes × Bytes)) : Bytes := joinedTokens (pairs.map quotedField)

theorem isBlank_of_clean {c : Byte} (h : isControl c = false) (hspace : c ≠ ch ' ') :
    isBlank c = false := by
  have hcontrols : isControl (ch '\t') = true ∧ isControl (ch '\r') = true ∧
      isControl (ch '\n') = true := by decide
  have ht := ne_of_isControl h hcontrols.1
  have hr := ne_of_isControl h hcontrols.2.1
  have hn := ne_of_isControl h hcontrols.2.2
  simp [isBlank, hspace, ht, hr, hn]

variable {pair : Bytes × Bytes} {pairs : List (Bytes × Bytes)}

theorem Quotable.trimmed (h : Quotable pair) : Trimmed pair.2 := by
  refine ⟨fun c hc => ?_, fun c hc => ?_⟩
  · have hmem : c ∈ pair.2 := List.mem_of_mem_head? hc
    have hblank := isBlank_of_clean (h.value_control c hmem) fun heq => h.value_head (heq ▸ hc)
    have hquote : c ≠ quote := fun heq => h.value_quote (heq ▸ hmem)
    simp [hblank, hquote]
  · have hmem : c ∈ pair.2 := List.mem_of_getLast? hc
    have hblank := isBlank_of_clean (h.value_control c hmem) fun heq => h.value_last.1 (heq ▸ hc)
    have hquote : c ≠ quote := fun heq => h.value_quote (heq ▸ hmem)
    have hcomma : c ≠ ch ',' := fun heq => h.value_last.2 (heq ▸ hc)
    simp [hblank, hquote, hcomma]

theorem Quotable.notMem (h : Quotable pair) : 0 ∉ quotedField pair := by
  have hvalue : 0 ∉ pair.2 := fun hmem => by
    have := h.value_control 0 hmem
    simp [isControl] at this
  have hends : (0 : Byte) ≠ quote ∧ (0 : Byte) ≠ ch '=' := by decide
  simp [quotedField, fieldText, h.name_text, hvalue, hends]

theorem zero_notMem_joinedTokens {tokens : List Bytes} (h : ∀ token ∈ tokens, 0 ∉ token) :
    0 ∉ joinedTokens tokens := by
  induction tokens with
  | nil => simp [joinedTokens, List.intercalate]
  | cons token tokens ih =>
    have hrest := ih fun other hother => h other (List.mem_cons_of_mem _ hother)
    cases tokens with
    | nil => simpa [joinedTokens, List.intercalate] using h token List.mem_cons_self
    | cons next tokens =>
      have hcomma : (0 : Byte) ≠ ch ',' := by decide
      rw [joinedTokens_cons_cons]
      simp [h token List.mem_cons_self, hcomma, hrest]

theorem zero_notMem_quotedFields (h : ∀ pair ∈ pairs, Quotable pair) : 0 ∉ quotedFields pairs := by
  refine zero_notMem_joinedTokens fun token htoken => ?_
  obtain ⟨pair, hpair, rfl⟩ := List.mem_map.mp htoken
  exact (h pair hpair).notMem

/-- The fields whose values are quoted. -/
theorem quotedFields_eq (pairs : List (Bytes × Bytes)) :
    quotedFields pairs =
      joinedTokens
        ((pairs.map fun pair => (pair.1, quote :: pair.2 ++ [quote])).map fieldText) := by
  rw [quotedFields, List.map_map]
  rfl

theorem closed_quotedFields (h : ∀ pair ∈ pairs, Quotable pair) :
    ∀ field ∈ pairs.map (fun pair => (pair.1, quote :: pair.2 ++ [quote])),
      FieldName field.1 ∧ Closed field.2 := by
  intro field hfield
  obtain ⟨pair, hpair, rfl⟩ := List.mem_map.mp hfield
  exact ⟨(h pair hpair).name, closed_quoted (h pair hpair).value_quote⟩

theorem digestMd5Parse_quoted (h : ∀ pair ∈ pairs, Quotable pair) :
    digestMd5Parse (quotedFields pairs) =
      some (pairs.foldl (fun ret pair => ret.insert pair.1 pair.2) ∅) := by
  rw [quotedFields_eq, digestMd5Parse_fields (closed_quotedFields h), List.foldl_map]
  refine congrArg some (List.foldl_ext _ _ _ fun ret pair hpair => ?_)
  rw [trimValue_quoted (h pair hpair).trimmed]

theorem insertToken_field (ret : List (Option Bytes)) {name : Bytes} (h : FieldName name)
    (value : Bytes) :
    insertToken ret (fieldText (name, value)) = some name :: some (trimValue value) :: ret := by
  have hall : ∀ c ∈ name, decide (c ≠ ch '=') = true := fun c hc => decide_eq_true (h.plain c hc).1
  have htake : (fieldText (name, value)).takeWhile (fun c => decide (c ≠ ch '=')) = name := by
    rw [fieldText, List.takeWhile_append_of_pos hall]
    simp
  have hdrop : (fieldText (name, value)).dropWhile (fun c => decide (c ≠ ch '=')) =
      ch '=' :: value := by
    rw [fieldText, List.dropWhile_append_of_pos hall]
    simp
  simp only [insertToken, htake, hdrop, List.isEmpty_eq_false_iff.mpr h.ne_nil, Bool.false_eq_true,
    if_false]

/-- The client's list holds the pairs from the last one to the first. -/
theorem hamLoginDigestMd5Parse_quoted (h : ∀ pair ∈ pairs, Quotable pair) :
    hamLoginDigestMd5Parse (quotedFields pairs) =
      pairs.reverse.flatMap fun pair => [some pair.1, some pair.2] := by
  rw [hamLoginDigestMd5Parse, quotedFields_eq, digestTokens_fields (closed_quotedFields h),
    List.map_map, List.foldl_map]
  induction pairs using List.reverseRecOn with
  | nil => rfl
  | append_singleton pairs pair ih =>
    have hpair := h pair (by simp)
    have hfront := ih fun other hother => h other (List.mem_append_left _ hother)
    rw [List.foldl_append, hfront, List.foldl_cons, List.foldl_nil, Function.comp_apply,
      insertToken_field _ hpair.name, trimValue_quoted hpair.trimmed]
    simp

/-- A map that is filled with pairs of distinct names holds these pairs. -/
theorem getElem?_foldl_pairs (hdistinct : (pairs.map Prod.fst).Nodup) (ret : Server.StringMap)
    (name value : Bytes) :
    (pairs.foldl (fun ret pair => ret.insert pair.1 pair.2) ret)[name]? = some value ↔
      (name, value) ∈ pairs ∨ name ∉ pairs.map Prod.fst ∧ ret[name]? = some value := by
  induction pairs generalizing ret with
  | nil => simp
  | cons pair pairs ih =>
    rw [List.map_cons, List.nodup_cons] at hdistinct
    rw [List.foldl_cons, ih hdistinct.2, Server.StringMap.getElem?_insert]
    by_cases hname : pair.1 = name
    · have hnot : (name, value) ∉ pairs := fun hmem =>
        hdistinct.1 (hname ▸ List.mem_map_of_mem hmem)
      have hself : (name, value) = pair ↔ pair.2 = value := by
        rw [← hname, Prod.ext_iff]
        simp [eq_comm]
      subst hname
      simp [hnot, hself, hdistinct.1]
    · have hother : (name, value) ≠ pair := fun heq => hname (by rw [← heq])
      simp [hname, hother, Ne.symm hname]

/-- Quoted fields with distinct names are read back by both parsers, and no text whatsoever makes
one of them leave the text or go on forever. -/
theorem quotedFields_round_trip :
    (∀ pairs : List (Bytes × Bytes), (pairs.map Prod.fst).Nodup → (∀ pair ∈ pairs, Quotable pair) →
      (∀ unset, ∃ fields, digestMd5ParseAt unset (quotedFields pairs) = .ok fields ∧
        ∀ name value : Bytes, fields[name]? = some value ↔ (name, value) ∈ pairs) ∧
      ∃ list, hamLoginDigestMd5ParseAt (quotedFields pairs) = .ok list ∧
        poppedPairs list = pairs.reverse ∧ list.length = 2 * pairs.length) ∧
    ∀ digest : Bytes, 0 ∉ digest →
      (∀ unset, ∃ fields, digestMd5ParseAt unset digest = .ok fields) ∧
      ∃ list, hamLoginDigestMd5ParseAt digest = .ok list := by
  refine ⟨fun pairs hdistinct h => ⟨fun unset => ?_, ?_⟩, fun digest h => ⟨fun unset => ?_, ?_⟩⟩
  · refine ⟨_, digestMd5ParseAt_of_parse unset (zero_notMem_quotedFields h)
      (digestMd5Parse_quoted h), fun name value => ?_⟩
    rw [getElem?_foldl_pairs hdistinct]
    simp
  · refine ⟨_, hamLoginDigestMd5ParseAt_eq (zero_notMem_quotedFields h), ?_⟩
    rw [hamLoginDigestMd5Parse_quoted h]
    have hpopped := poppedPairs_flatMap pairs.reverse []
    rw [List.append_nil] at hpopped
    refine ⟨hpopped.trans (List.append_nil _), ?_⟩
    simp [mul_comm]
  · exact ⟨_, digestMd5ParseAt_eq unset h⟩
  · exact ⟨_, hamLoginDigestMd5ParseAt_eq h⟩

/-- Values with a comma and a `=` inside, and a text that is no list of fields at all. -/
theorem quotedFields_round_trip_sample :
    let pairs := [(bytes "realm", bytes "a, b=c"), (bytes "qop", bytes "auth")]
    ((∀ unset, ∃ fields, digestMd5ParseAt unset (quotedFields pairs) = .ok fields ∧
        ∀ name value : Bytes, fields[name]? = some value ↔ (name, value) ∈ pairs) ∧
      ∃ list, hamLoginDigestMd5ParseAt (quotedFields pairs) = .ok list ∧
        poppedPairs list = pairs.reverse ∧ list.length = 2 * pairs.length) ∧
    (∀ unset, ∃ fields, digestMd5ParseAt unset (bytes "a,=\",b= =") = .ok fields) ∧
      ∃ list, hamLoginDigestMd5ParseAt (bytes "a,=\",b= =") = .ok list := by
  refine ⟨quotedFields_round_trip.1 _ (by decide) ?_, quotedFields_round_trip.2 _ (by decide)⟩
  intro pair hpair
  rcases List.mem_pair.mp hpair with rfl | rfl
  · exact ⟨⟨by decide, by decide⟩, by decide, by decide, by decide, by decide, by decide⟩
  · exact ⟨⟨by decide, by decide⟩, by decide, by decide, by decide, by decide, by decide⟩

end Hamlog.Library
