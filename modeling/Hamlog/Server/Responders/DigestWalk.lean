import Hamlog.Foundation.Cursor
import Hamlog.Server.Responders.Login

/-! # The digest parsers over a memory block

`digest_md5_parse` of the server and `ham_login_digest_md5_parse` of the client
are one loop over the pointers `token_start`, `val_start`, `val_end` and `cur`;
they differ in what they store for a token. Here the pointers are cursors whose
reads are checked, and the loop is shown to find the tokens of the text.
-/
namespace Hamlog.Server.Login
open Foundation Wire

/-- The text of a C string as it lies in memory, with its terminator. -/
def stored (text : Bytes) : Bytes := text ++ [0]

/-- A byte of a token, by whether the bytes in front of it leave a quote open. -/
def tokenStep (inQuotes : Bool) (c : Byte) : Option Bool :=
  if c ≠ 0 ∧ (inQuotes ∨ c ≠ ch ',') then some (if c = quote then !inQuotes else inQuotes) else none

/-- The loop at the start of a value skips these. -/
def isOpening (c : Byte) : Bool := isBlank c || c == quote

/-- The loop at the end of a value skips these. -/
def isClosing (c : Byte) : Bool := isBlank c || c == ch ',' || c == quote || c == 0

/-- The loop between two tokens skips these. -/
def isGap (c : Byte) : Bool := isBlank c || c == ch ','

section Walk
variable {σ : Type} (store : σ → Bytes → Option Bytes → σ) (mem : Bytes)

/-- More turns than a cursor has cells to go over. -/
def turns : ℕ := mem.length + 1

/-- The value that starts behind `valStart`, if there is one in front of `cur`. -/
def valueBetween (valStart cur : ℤ) : Except WalkFault (Option Bytes) := do
  if valStart = cur then return none
  let valStart ← Cursor.skipTo mem isOpening cur (turns mem) (valStart + 1)
  let valEnd ← Cursor.skipBack mem isClosing valStart (turns mem) cur
  if 0 ≤ valEnd - valStart + 1 then
    return some (← Cursor.strndup mem 0 (valEnd - valStart + 1).toNat valStart)
  else return none

/-- The first `=` of the text from `tokenStart` on, or the end `cur` of the token. -/
def valueStart (tokenStart cur : ℤ) : Except WalkFault ℤ := do
  match ← Cursor.strchr mem 0 (ch '=') (turns mem) tokenStart with
  | none => return cur
  | some valStart => return if cur < valStart then cur else valStart

/-- A name in front of `valStart` is stored with the value behind it. -/
def storeBetween (ret : σ) (tokenStart valStart cur : ℤ) : Except WalkFault σ := do
  if tokenStart = valStart then return ret
  let name ← Cursor.strndup mem 0 (valStart - tokenStart).toNat tokenStart
  return store ret name (← valueBetween mem valStart cur)

/-- A turn of the outer loop: what is stored, and the start of the next token. -/
def digestTurn (ret : σ) (tokenStart : ℤ) : Except WalkFault (σ × ℤ) := do
  let cur := (← Cursor.scan mem tokenStep (turns mem) false tokenStart).2
  let valStart ← valueStart mem tokenStart cur
  let ret ← storeBetween store mem ret tokenStart valStart cur
  if (← Cursor.read mem cur) = 0 then return (ret, cur)
  else return (ret, ← Cursor.skip mem isGap (turns mem) (cur + 1))

def digestWalk : ℕ → σ → ℤ → Except WalkFault σ
  | 0, _, _ => .error .endless
  | fuel + 1, ret, cur => do
    if (← Cursor.read mem cur) = 0 then return ret
    let next ← digestTurn store mem ret cur
    digestWalk fuel next.1 next.2

end Walk

def fieldValue (token : Bytes) : Option Bytes :=
  match token.dropWhile (· ≠ ch '=') with
  | [] => none
  | _ :: value => some (trimValue value)

/-- What a token gives to `store`: nothing without a name, and no value without a `=`. -/
def storeField {σ : Type} (store : σ → Bytes → Option Bytes → σ) (ret : σ) (token : Bytes) : σ :=
  let name := token.takeWhile (· ≠ ch '=')
  if name.isEmpty then ret else store ret name (fieldValue token)

/-- What is stored for a token without a value is what assigning a null pointer to a string leaves,
which the language does not say. -/
def storeText (unset : StringMap → Bytes → StringMap)
    (ret : StringMap) (name : Bytes) : Option Bytes → StringMap
  | none => unset ret name
  | some value => ret.insert name value

/-- `digest_md5_parse` over the memory block of its argument. -/
def digestMd5ParseAt (unset : StringMap → Bytes → StringMap)
    (digest : Bytes) : Except WalkFault StringMap :=
  digestWalk (storeText unset) (stored digest) (turns (stored digest)) ∅ 0

/-! ## A turn of the loop -/

/-- The inner loop stops at the end of the token. -/
theorem tokenStep_token (inQuotes : Bool) {text : Bytes} (h : 0 ∉ text) :
    ∃ quoted c rest, (token inQuotes text).1.foldlM tokenStep inQuotes = some quoted ∧
      stored (token inQuotes text).2 = c :: rest ∧ tokenStep quoted c = none := by
  induction text generalizing inQuotes with
  | nil => exact ⟨inQuotes, 0, [], rfl, rfl, by simp [tokenStep]⟩
  | cons d text ih =>
    rw [List.mem_cons, not_or] at h
    by_cases hd : (!inQuotes && d == ch ',') = true
    · have hclosed : inQuotes = false ∧ d = ch ',' := by simpa using hd
      rw [token, if_pos hd]
      exact ⟨inQuotes, d, stored text, rfl, rfl, by simp [tokenStep, hclosed]⟩
    · obtain ⟨quoted, c, rest, hfold, hrest, hstop⟩ :=
        ih (if d = quote then !inQuotes else inQuotes) h.2
      rw [token, if_neg hd]
      refine ⟨quoted, c, rest, ?_, hrest, hstop⟩
      have hstep : tokenStep inQuotes d = some (if d = quote then !inQuotes else inQuotes) := by
        rw [tokenStep, if_pos]
        refine ⟨Ne.symm h.1, ?_⟩
        by_contra hnot
        rw [not_or] at hnot
        simp_all
      rw [List.foldlM_cons, hstep]
      exact hfold

/-- A token is followed by a comma or by the end of the text. -/
theorem token_rest (inQuotes : Bool) (text : Bytes) :
    (token inQuotes text).2 = [] ∨ ∃ rest, (token inQuotes text).2 = ch ',' :: rest := by
  induction text generalizing inQuotes with
  | nil => exact .inl rfl
  | cons d text ih =>
    by_cases hd : (!inQuotes && d == ch ',') = true
    · have hcomma : inQuotes = false ∧ d = ch ',' := by simpa using hd
      rw [token, if_pos hd]
      exact .inr ⟨text, by rw [hcomma.2]⟩
    · rw [token, if_neg hd]
      exact ih _

theorem length_lt_turns {front text rest : Bytes} :
    text.length < turns (front ++ (text ++ rest)) := by
  rw [turns, List.length_append, List.length_append]
  omega

/-- The name of a token ends where the cursor of its value starts, whatever the text behind the
token holds. -/
theorem valueStart_eq {token rest : Bytes} (h : 0 ∉ token ++ rest)
    (hrest : rest = [] ∨ ∃ behind, rest = ch ',' :: behind) (front : Bytes) :
    valueStart (front ++ stored (token ++ rest)) front.length ((front ++ token).length : ℕ) =
      .ok ((front ++ token.takeWhile (· ≠ ch '=')).length : ℕ) := by
  have hfuel : (token ++ rest).length < turns (front ++ (token ++ rest ++ [0])) := length_lt_turns
  rw [valueStart, stored, Cursor.strchr_eq h (by decide) front [] hfuel]
  by_cases htoken : ch '=' ∈ token
  · have htake : (token ++ rest).takeWhile (· ≠ ch '=') = token.takeWhile (· ≠ ch '=') := by
      obtain ⟨name, value, rfl, hname⟩ := List.eq_append_cons_of_mem htoken
      have hall : ∀ c ∈ name, decide (c ≠ ch '=') = true := fun c hc =>
        decide_eq_true fun heq => hname (heq ▸ hc)
      rw [List.append_assoc, List.takeWhile_append_of_pos hall, List.takeWhile_append_of_pos hall]
      simp
    have hle := (List.takeWhile_prefix (l := token) fun c => decide (c ≠ ch '=')).length_le
    rw [if_pos (List.mem_append_left _ htoken), htake]
    simp only [bind, Except.bind, pure, Except.pure]
    rw [if_neg]
    rw [List.length_append, List.length_append]
    omega
  · have hall : ∀ c ∈ token, decide (c ≠ ch '=') = true := fun c hc =>
      decide_eq_true fun heq => htoken (heq ▸ hc)
    rw [List.takeWhile_eq_self_iff.mpr hall]
    by_cases hmem : ch '=' ∈ token ++ rest
    · obtain ⟨behind, rfl⟩ := hrest.resolve_left fun hnil => htoken (by simpa [hnil] using hmem)
      have htake : (token ++ ch ',' :: behind).takeWhile (· ≠ ch '=') =
          token ++ ch ',' :: behind.takeWhile (· ≠ ch '=') := by
        rw [List.takeWhile_append_of_pos hall, List.takeWhile_cons_of_pos (by decide)]
      rw [if_pos hmem, htake]
      simp only [bind, Except.bind, pure, Except.pure]
      rw [if_pos]
      rw [List.length_append, List.length_append, List.length_append, List.length_cons]
      omega
    · rw [if_neg hmem]
      rfl

theorem rdropWhile_congr {p q : Byte → Bool} {text : Bytes} (h : ∀ c ∈ text, p c = q c) :
    text.rdropWhile p = text.rdropWhile q := by
  induction text using List.reverseRecOn with
  | nil => rfl
  | append_singleton text c ih =>
    have hc := h c (by simp)
    have hfront := ih fun d hd => h d (List.mem_append_left _ hd)
    by_cases hp : p c
    · rw [List.rdropWhile_concat_pos _ _ _ hp, List.rdropWhile_concat_pos _ _ _ (hc ▸ hp), hfront]
    · rw [List.rdropWhile_concat_neg _ _ _ hp, List.rdropWhile_concat_neg _ _ _ (hc ▸ hp)]

/-- The two cursors that run towards each other leave the trimmed value between them. -/
theorem valueBetween_eq {value : Bytes} (h : 0 ∉ value) {c : Byte} (hc : isClosing c = true)
    (front rest : Bytes) :
    valueBetween (front ++ ch '=' :: (value ++ c :: rest)) front.length
        ((front ++ ch '=' :: value).length : ℕ) = .ok (some (trimValue value)) := by
  generalize hmem : front ++ ch '=' :: (value ++ c :: rest) = mem
  generalize hcur : (((front ++ ch '=' :: value).length : ℕ) : ℤ) = cur
  have hne : ¬(front.length : ℤ) = cur := by
    rw [← hcur, List.length_append, List.length_cons]
    omega
  let lead := front ++ ch '=' :: value.takeWhile isOpening
  let body := value.dropWhile isOpening
  have hsplit : value.takeWhile isOpening ++ body = value := List.takeWhile_append_dropWhile
  have hlead : lead ++ (body ++ [c] ++ rest) = mem := by
    rw [← hmem]
    conv_rhs => rw [← hsplit]
    simp [lead]
  have hopen : Cursor.skipTo mem isOpening cur (turns mem) (front.length + 1) =
      .ok (lead.length : ℕ) := by
    have hfuel : value.length < turns (front ++ [ch '='] ++ (value ++ c :: rest)) :=
      length_lt_turns
    have hskip := Cursor.skipTo_eq isOpening (front ++ [ch '=']) value (c :: rest) hfuel
    rw [← Cursor.cast_length_concat] at hskip
    simp only [List.append_assoc, List.singleton_append] at hskip
    rwa [hmem, hcur] at hskip
  have htrim : (body ++ [c]).rdropWhile isClosing = trimValue value := by
    rw [List.rdropWhile_concat_pos _ _ _ hc]
    refine rdropWhile_congr fun d hd => ?_
    have hzero : d ≠ 0 := fun heq => h (heq ▸ (List.dropWhile_suffix _).subset hd)
    simp [isClosing, hzero]
  have hclose : Cursor.skipBack mem isClosing lead.length (turns mem) cur =
      .ok (((lead ++ trimValue value).length : ℕ) - 1) := by
    have hfuel : (body ++ [c]).length < turns (lead ++ (body ++ [c] ++ rest)) := length_lt_turns
    have hskip := Cursor.skipBack_eq isClosing lead (body ++ [c]) rest hfuel
    have hlast : (((lead ++ (body ++ [c])).length : ℕ) : ℤ) - 1 = cur := by
      rw [← List.append_assoc, ← Cursor.cast_length_concat, add_sub_cancel_right, ← hcur]
      conv_rhs => rw [← hsplit]
      simp [lead]
    rwa [hlead, htrim, hlast] at hskip
  have hcopy : Cursor.strndup mem 0 (trimValue value).length lead.length =
      .ok (trimValue value) := by
    obtain ⟨behind, hbehind⟩ := List.rdropWhile_prefix isClosing (body ++ [c])
    rw [htrim] at hbehind
    have hzero : 0 ∉ trimValue value := fun hmem => h (mem_of_mem_trimValue hmem)
    have hdup := Cursor.strndup_eq hzero lead (behind ++ rest)
    rwa [← List.append_assoc (trimValue value), hbehind, hlead] at hdup
  have hcount : (((lead ++ trimValue value).length : ℕ) : ℤ) - 1 - lead.length + 1 =
      (trimValue value).length := by
    rw [List.length_append]
    omega
  rw [valueBetween, if_neg hne, hopen]
  simp only [bind, Except.bind, hclose, hcount, Int.toNat_natCast, hcopy, pure, Except.pure]
  rw [if_pos (Int.natCast_nonneg _)]

theorem stored_dropWhile {p : Byte → Bool} (hp : p 0 = false) (text : Bytes) :
    ∃ c rest, stored (text.dropWhile p) = c :: rest ∧ p c = false := by
  cases htext : text.dropWhile p with
  | nil => exact ⟨0, [], rfl, hp⟩
  | cons c rest =>
    refine ⟨c, stored rest, rfl, ?_⟩
    have hhead := List.head?_dropWhile_not p text
    rw [htext] at hhead
    exact hhead

section Turn
variable {σ : Type} (store : σ → Bytes → Option Bytes → σ)

theorem valueBetween_token {token : Bytes} (h : 0 ∉ token) {c : Byte} (hc : isClosing c = true)
    (front rest : Bytes) :
    valueBetween (front ++ (token ++ c :: rest))
        ((front ++ token.takeWhile (· ≠ ch '=')).length : ℕ) ((front ++ token).length : ℕ) =
      .ok (fieldValue token) := by
  have hsplit : token.takeWhile (· ≠ ch '=') ++ token.dropWhile (· ≠ ch '=') = token :=
    List.takeWhile_append_dropWhile
  generalize token.takeWhile (· ≠ ch '=') = name at hsplit ⊢
  cases hbehind : token.dropWhile (· ≠ ch '=') with
  | nil =>
    rw [hbehind, List.append_nil] at hsplit
    rw [hsplit, valueBetween, if_pos rfl, fieldValue, hbehind]
    rfl
  | cons e value =>
    have hhead := List.head?_dropWhile_not (fun c => decide (c ≠ ch '=')) token
    rw [hbehind] at hhead hsplit
    obtain rfl : e = ch '=' := by simpa using hhead
    have hzero : 0 ∉ value := fun hmem =>
      h (hsplit ▸ List.mem_append_right _ (List.mem_cons_of_mem _ hmem))
    have hbetween := valueBetween_eq hzero hc (front ++ name) rest
    rw [fieldValue, hbehind, ← hsplit, List.append_assoc, List.cons_append,
      ← List.append_assoc front, ← List.append_assoc front]
    exact hbetween

theorem storeBetween_eq {token : Bytes} (h : 0 ∉ token) (ret : σ) {c : Byte}
    (hc : isClosing c = true) (front rest : Bytes) :
    storeBetween store (front ++ (token ++ c :: rest)) ret front.length
        ((front ++ token.takeWhile (· ≠ ch '=')).length : ℕ) ((front ++ token).length : ℕ) =
      .ok (storeField store ret token) := by
  have hvalue := valueBetween_token h hc front rest
  have hsplit : token.takeWhile (· ≠ ch '=') ++ token.dropWhile (· ≠ ch '=') = token :=
    List.takeWhile_append_dropWhile
  rw [storeField]
  generalize token.takeWhile (· ≠ ch '=') = name at hsplit hvalue ⊢
  by_cases hempty : name = []
  · simp [storeBetween, hempty, pure, Except.pure]
  · have hne : ¬(front.length : ℤ) = ((front ++ name).length : ℕ) := by
      have hpos := List.length_pos_iff.mpr hempty
      rw [List.length_append]
      omega
    have hcount : (((front ++ name).length : ℕ) : ℤ) - front.length = name.length := by
      rw [List.length_append]
      omega
    have hcopy : Cursor.strndup (front ++ (token ++ c :: rest)) 0 name.length front.length =
        .ok name := by
      rw [← hsplit, List.append_assoc]
      exact Cursor.strndup_eq (fun hmem => h (hsplit ▸ List.mem_append_left _ hmem)) front _
    rw [storeBetween, if_neg hne, hcount, Int.toNat_natCast, hcopy]
    simp only [bind, Except.bind, hvalue, List.isEmpty_iff, hempty, if_false, pure, Except.pure]

/-- A turn stores the first token of the text and comes to what is behind the gap. -/
theorem digestTurn_eq {text : Bytes} (h : 0 ∉ text) (ret : σ) (front : Bytes) :
    ∃ front', front ++ stored text =
        front' ++ stored (((token false text).2.drop 1).dropWhile isGap) ∧
      digestTurn store (front ++ stored text) ret front.length =
        .ok (storeField store ret (token false text).1, (front'.length : ℕ)) := by
  obtain ⟨quoted, c, tail, hfold, htail, hstop⟩ := tokenStep_token false h
  have happend := token_append false text
  have hrest := token_rest false text
  generalize (token false text).1 = first at hfold happend ⊢
  generalize (token false text).2 = rest at htail happend hrest ⊢
  subst happend
  have hfirst : 0 ∉ first := fun hmem => h (List.mem_append_left _ hmem)
  have hmem : front ++ stored (first ++ rest) = front ++ (first ++ c :: tail) := by
    rw [← htail, stored, stored, List.append_assoc]
  have hclosing : isClosing c = true := by
    rcases hrest with rfl | ⟨behind, rfl⟩ <;> cases htail <;> decide
  have hfuel : first.length < turns (front ++ (first ++ c :: tail)) := length_lt_turns
  have hstart := valueStart_eq h hrest front
  have hread := Cursor.read_length (front ++ first) c tail
  rw [List.append_assoc] at hread
  rw [hmem] at hstart ⊢
  rw [digestTurn, Cursor.scan_eq hfold hstop front tail hfuel]
  simp only [bind, Except.bind, hstart, storeBetween_eq store hfirst ret hclosing front tail, hread]
  rcases hrest with rfl | ⟨behind, rfl⟩
  · cases htail
    exact ⟨front ++ first, by simp [stored], rfl⟩
  · obtain ⟨rfl, rfl⟩ : ch ',' = c ∧ stored behind = tail := List.cons.inj htail
    obtain ⟨d, after, hafter, hd⟩ := stored_dropWhile (show isGap 0 = false by decide) behind
    have hgap : ∀ e ∈ behind.takeWhile isGap, isGap e := fun e he => List.mem_takeWhile_imp he
    have hbehind : stored behind = behind.takeWhile isGap ++ d :: after := by
      rw [← hafter, stored, stored, ← List.append_assoc, List.takeWhile_append_dropWhile]
    have hfuel : (behind.takeWhile isGap).length <
        turns (front ++ first ++ [ch ','] ++ (behind.takeWhile isGap ++ d :: after)) :=
      length_lt_turns
    have hskip := Cursor.skip_eq hgap hd (front ++ first ++ [ch ',']) after hfuel
    have hblock : front ++ first ++ [ch ','] ++ (behind.takeWhile isGap ++ d :: after) =
        front ++ (first ++ ch ',' :: stored behind) := by
      rw [hbehind]
      simp
    rw [hblock, ← Cursor.cast_length_concat] at hskip
    refine ⟨front ++ first ++ [ch ','] ++ behind.takeWhile isGap, ?_, ?_⟩
    · rw [List.drop_one, List.tail_cons, hafter, List.append_assoc, hblock]
    · have hcomma : ¬ch ',' = 0 := by decide
      simp only [hcomma, if_false, hskip, pure, Except.pure]

theorem digestTokens_cons {text : Bytes} (hne : text ≠ []) :
    digestTokens text.length text = (token false text).1 ::
      digestTokens (((token false text).2.drop 1).dropWhile isGap).length
        (((token false text).2.drop 1).dropWhile isGap) := by
  have hlt := next_length_lt hne
  obtain ⟨n, hn⟩ := Nat.exists_eq_succ_of_ne_zero (Nat.ne_of_gt (List.length_pos_iff.mpr hne))
  rw [hn] at hlt
  rw [hn, digestTokens, if_neg (by simp [hne])]
  exact congrArg _ (digestTokens_fuel (Nat.le_of_lt_succ hlt) le_rfl)

/-- The loop over the block stores the tokens of the text one after the other. -/
theorem digestWalk_eq {text : Bytes} (h : 0 ∉ text) (ret : σ) (front : Bytes) {fuel : ℕ}
    (hfuel : text.length < fuel) :
    digestWalk store (front ++ stored text) fuel ret front.length =
      .ok ((digestTokens text.length text).foldl (storeField store) ret) := by
  induction fuel generalizing text ret front with
  | zero => omega
  | succ fuel ih =>
    cases htext : text with
    | nil =>
      rw [digestWalk, stored, List.nil_append, Cursor.read_length front 0 []]
      rfl
    | cons c behind =>
      have hne : text ≠ [] := by simp [htext]
      have hc : ¬c = 0 := fun hc => h (htext ▸ hc ▸ List.mem_cons_self)
      have hread : Cursor.read (front ++ stored text) front.length = .ok c := by
        rw [htext]
        exact Cursor.read_length front c (stored behind)
      obtain ⟨front', hblock, hturn⟩ := digestTurn_eq store h ret front
      have hnext := ih (fun hmem => h (mem_of_mem_next hmem))
        (storeField store ret (token false text).1) front'
        (lt_of_lt_of_le (next_length_lt hne) (Nat.le_of_lt_succ hfuel))
      rw [← htext, digestTokens_cons hne, List.foldl_cons, digestWalk, hread]
      simp only [bind, Except.bind, hc, if_false, hturn]
      rw [hblock]
      exact hnext

end Turn

/-- The server's parser stays within its block and ends, whatever the text holds. -/
theorem digestMd5ParseAt_eq (unset : StringMap → Bytes → StringMap) {digest : Bytes}
    (h : 0 ∉ digest) :
    digestMd5ParseAt unset digest =
      .ok ((digestTokens digest.length digest).foldl (storeField (storeText unset)) ∅) := by
  have hfuel : digest.length < turns (stored digest) := by
    rw [turns, stored, List.length_append]
    omega
  exact digestWalk_eq (storeText unset) h ∅ [] hfuel

/-- A text whose tokens all have values is parsed as by the loop over the text. -/
theorem digestMd5ParseAt_of_parse (unset : StringMap → Bytes → StringMap) {digest : Bytes}
    (h : 0 ∉ digest) {fields : StringMap} (hparse : digestMd5Parse digest = some fields) :
    digestMd5ParseAt unset digest = .ok fields := by
  rw [digestMd5ParseAt_eq unset h]
  rw [digestMd5Parse, digestLoop_eq_foldlM] at hparse
  generalize digestTokens digest.length digest = tokens at hparse ⊢
  generalize (∅ : StringMap) = ret at hparse ⊢
  induction tokens generalizing ret with
  | nil =>
    cases hparse
    rfl
  | cons token tokens ih =>
    obtain ⟨next, hnext, hparse⟩ := Option.bind_eq_some_iff.mp hparse
    have hstore : storeField (storeText unset) ret token = next := by
      rw [storeToken] at hnext
      rw [storeField, fieldValue]
      cases hvalue : token.dropWhile (· ≠ ch '=') with
      | nil =>
        rw [hvalue] at hnext
        split_ifs at hnext ⊢
        exact Option.some.inj hnext
      | cons c value =>
        rw [hvalue] at hnext
        split_ifs at hnext ⊢ <;> exact Option.some.inj hnext
    rw [List.foldl_cons, hstore]
    exact ih next hparse

end Hamlog.Server.Login
