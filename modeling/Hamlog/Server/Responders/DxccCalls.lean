import Hamlog.Server.Responders.Dxcc

/-! # Full call signs in the DXCC map

An entry with the mark `=` stands for one call sign, but the map keeps it like a
prefix: the search also finds it for every longer call sign that begins with it.
-/
namespace Hamlog.Server.DXCC
open Foundation Wire
variable {φ : Type} (boost : Boost φ)

/-- The map after all entries of a file. -/
def table (entries : List (Bytes × Entity φ)) : Prefixes φ := entries.foldl assign ∅

/-- The entry of a full call sign. -/
def marked (call : Bytes) : Bytes := ch '=' :: call

/-- The marked call sign `k` between other entries makes no difference to a request for another
call sign. -/
def ExactOnly (before : List (Bytes × Entity φ)) (k : Bytes) (e : Entity φ)
    (after : List (Bytes × Entity φ)) (request : Request) (reply : Reply) : Prop :=
  boost.toUpper request.content ≠ k →
    sendDXCC boost (table (before ++ (marked k, e) :: after)) request reply =
      sendDXCC boost (table (before ++ after)) request reply

/-- A prefix is listed by one of the entries. -/
def ListedBy (entries : List (Bytes × Entity φ)) (p : Bytes) : Prop :=
  ∃ entry ∈ entries, unmarked entry.1 = p

/-- The longest listed prefix of a text belongs to a country with the same columns. -/
def SameColumns (entries : List (Bytes × Entity φ)) (text : Bytes) (e : Entity φ) : Prop :=
  ∃ p e', LongestPrefix (ListedBy entries) text p ∧ lastListed entries p = some e' ∧
    Tokens.joined (columns boost e') = Tokens.joined (columns boost e)

section
variable {boost} {before after : List (Bytes × Entity φ)} {k : Bytes} {e : Entity φ}

theorem getElem?_table (entries : List (Bytes × Entity φ)) (p : Bytes) :
    (table entries)[p]? = lastListed entries p := by
  rw [table, getElem?_foldl_assign]
  simp

theorem listedBy_iff {entries : List (Bytes × Entity φ)} {p : Bytes} :
    ListedBy entries p ↔ (lastListed entries p).isSome := isSome_lastListed.symm

/-- The constructor makes the map of the entries of all lines, in their order. -/
theorem new_eq_table (file : Bytes) : new boost (some file) =
    ((file.splitOn lf).mapM (lineEntries boost)).map fun lines => table lines.flatten := by
  have hfold (lines : List Bytes) (prefixes : Prefixes φ) :
      lines.foldlM (loadLine boost) prefixes =
        (lines.mapM (lineEntries boost)).map fun read => read.flatten.foldl assign prefixes := by
    induction lines generalizing prefixes with
    | nil => rfl
    | cons line lines ih =>
      rw [List.foldlM_cons, loadLine, List.mapM_cons]
      cases lineEntries boost line with
      | none => rfl
      | some entries =>
        simp only [Option.map_some, Option.bind_eq_bind, Option.bind_some, ih]
        cases lines.mapM (lineEntries boost) <;> simp
  exact hfold _ ∅

theorem unmarked_marked (call : Bytes) : unmarked (marked call) = call := by
  simp [unmarked, marked]

theorem lastListed_marked (p : Bytes) : lastListed (before ++ (marked k, e) :: after) p =
    (lastListed after p).or ((if k = p then some e else none).or (lastListed before p)) := by
  have hcons : lastListed ((marked k, e) :: after) p =
      (lastListed after p).or (lastListed [(marked k, e)] p) := lastListed_append [_] after p
  rw [lastListed_append, hcons, lastListed_singleton, unmarked_marked, Option.or_assoc]

/-- The entry changes what the map has for its call sign only. -/
theorem lastListed_other {p : Bytes} (h : k ≠ p) :
    lastListed (before ++ (marked k, e) :: after) p = lastListed (before ++ after) p := by
  rw [lastListed_marked, if_neg h, lastListed_append]
  rfl

/-- Another entry for the call sign behind it replaces the entry. -/
theorem lastListed_later (h : ListedBy after k) (p : Bytes) :
    lastListed (before ++ (marked k, e) :: after) p = lastListed (before ++ after) p := by
  by_cases hp : k = p
  · subst hp
    obtain ⟨found, hfound⟩ := Option.isSome_iff_exists.mp (listedBy_iff.mp h)
    rw [lastListed_marked, lastListed_append, hfound]
    rfl
  · exact lastListed_other hp

theorem lastListed_self (h : ¬ ListedBy after k) :
    lastListed (before ++ (marked k, e) :: after) k = some e := by
  rw [listedBy_iff, Option.not_isSome_iff_eq_none] at h
  rw [lastListed_marked, h, if_pos rfl]
  rfl

/-- The answer to a request is the country of its longest listed prefix. -/
def answer (boost : Boost φ) (request : Request) (reply : Reply) : Option (Entity φ) → Reply
  | some e => found boost reply request.content e
  | none => unknown reply

theorem sendDXCC_table (entries : List (Bytes × Entity φ)) (request : Request) (reply : Reply) :
    sendDXCC boost (table entries) request reply =
      answer boost request reply
        (longestMatch (lastListed entries) (boost.toUpper request.content)) := by
  have hfind : ((table entries)[·]?) = lastListed entries := funext (getElem?_table entries)
  rw [sendDXCC, hfind]
  cases longestMatch (lastListed entries) (boost.toUpper request.content) <;> rfl

theorem answer_some_iff {request : Request} {reply : Reply} {other : Option (Entity φ)} :
    answer boost request reply (some e) = answer boost request reply other ↔
      ∃ e', other = some e' ∧
        Tokens.joined (columns boost e') = Tokens.joined (columns boost e) := by
  cases other with
  | none =>
    refine iff_of_false (fun h => ?_) (by simp)
    have hcontent := congrArg (fun reply => reply.content.head?) h
    simp only [answer, found, unknown, Reply.setContent, header, bytes] at hcontent
    exact absurd hcontent (by simp; decide)
  | some e' =>
    have hrow (e : Entity φ) : Tokens.joined (request.content :: columns boost e) =
        request.content ++ ch ';' :: Tokens.joined (columns boost e) :=
      Tokens.joined_cons_cons request.content _ _
    simp [answer, found, Reply.setContent, hrow, eq_comm]

theorem longestPrefix_listedBy {entries : List (Bytes × Entity φ)} {text p : Bytes} :
    LongestPrefix (fun q => (lastListed entries q).isSome) text p ↔
      LongestPrefix (ListedBy entries) text p :=
  LongestPrefix.congr fun _ _ _ => listedBy_iff.symm

/-- The entry is never found if it is empty, not a prefix of the text, or replaced. -/
theorem longestMatch_unreached {text : Bytes}
    (h : k = [] ∨ ¬ k <+: text ∨ ListedBy after k) :
    longestMatch (lastListed (before ++ (marked k, e) :: after)) text =
      longestMatch (lastListed (before ++ after)) text := by
  refine longestMatch_congr fun p hp hprefix => ?_
  rcases h with rfl | hother | hlater
  · exact lastListed_other (Ne.symm hp)
  · exact lastListed_other fun heq => hother (heq ▸ hprefix)
  · exact lastListed_later hlater p

/-- A longer prefix that is listed is found instead of the entry. -/
theorem longestMatch_longer {text q : Bytes} (hq : q <+: text) (hlength : k.length < q.length)
    (hlisted : ListedBy (before ++ after) q) :
    longestMatch (lastListed (before ++ (marked k, e) :: after)) text =
      longestMatch (lastListed (before ++ after)) text := by
  have hqne : q ≠ [] := List.ne_nil_of_length_pos (by omega)
  obtain ⟨found, hfound⟩ : ∃ found,
      longestMatch (lastListed (before ++ after)) text = some found := by
    rw [← Option.isSome_iff_exists, Option.isSome_iff_ne_none, Ne, longestMatch_eq_none_iff]
    intro hnone
    rw [listedBy_iff, hnone q hqne hq] at hlisted
    exact absurd hlisted (by simp)
  obtain ⟨p, hp, hpfound⟩ := longestMatch_eq_some_iff.mp hfound
  have hlong : q.length ≤ p.length := hp.longest q hqne hq (listedBy_iff.mp hlisted)
  have hkp : k ≠ p := fun heq => by rw [heq] at hlength; omega
  rw [hfound]
  refine longestMatch_eq_some_iff.mpr ⟨p, ⟨hp.ne_nil, hp.isPrefix, ?_, ?_⟩, ?_⟩
  · rw [lastListed_other hkp]
    exact hp.isListed
  · intro r hr hprefix hrlisted
    by_cases hkr : k = r
    · rw [← hkr]
      omega
    · rw [lastListed_other hkr] at hrlisted
      exact hp.longest r hr hprefix hrlisted
  · rwa [lastListed_other hkp]

/-- Otherwise the entry is found. -/
theorem longestMatch_marked {text : Bytes} (hne : k ≠ []) (hstarts : k <+: text)
    (hlonger : ¬ ∃ q, q <+: text ∧ k.length < q.length ∧ ListedBy (before ++ after) q)
    (hlater : ¬ ListedBy after k) :
    longestMatch (lastListed (before ++ (marked k, e) :: after)) text = some e := by
  have hself : lastListed (before ++ (marked k, e) :: after) k = some e := lastListed_self hlater
  refine longestMatch_eq_some_iff.mpr ⟨k, ⟨hne, hstarts, by simp [hself], ?_⟩, hself⟩
  intro q _ hq hlisted
  by_contra hlength
  have hkq : k ≠ q := fun heq => hlength (heq ▸ le_rfl)
  rw [lastListed_other hkq, ← listedBy_iff] at hlisted
  exact hlonger ⟨q, hq, by omega, hlisted⟩

/-- A marked call sign makes no difference to other calls if and only if they do not begin with it,
a longer prefix or a later entry hides it, or the other entries have the same data for them. -/
theorem exactOnly_iff (boost : Boost φ) (before after : List (Bytes × Entity φ)) (k : Bytes)
    (e : Entity φ) (request : Request) (reply : Reply) :
    ExactOnly boost before k e after request reply ↔
      boost.toUpper request.content = k ∨ k = [] ∨ ¬ k <+: boost.toUpper request.content ∨
        ListedBy after k ∨
        (∃ q, q <+: boost.toUpper request.content ∧ k.length < q.length ∧
          ListedBy (before ++ after) q) ∨
        SameColumns boost (before ++ after) (boost.toUpper request.content) e := by
  simp only [ExactOnly, sendDXCC_table]
  generalize boost.toUpper request.content = text
  by_cases hcall : text = k
  · exact iff_of_true (fun hne => absurd hcall hne) (Or.inl hcall)
  by_cases hunreached : k = [] ∨ ¬ k <+: text ∨ ListedBy after k
  · exact iff_of_true (fun _ => by rw [longestMatch_unreached hunreached]) (by tauto)
  by_cases hlonger : ∃ q, q <+: text ∧ k.length < q.length ∧ ListedBy (before ++ after) q
  · obtain ⟨q, hq, hlength, hlisted⟩ := hlonger
    exact iff_of_true (fun _ => by rw [longestMatch_longer hq hlength hlisted])
      (Or.inr (Or.inr (Or.inr (Or.inr (Or.inl ⟨q, hq, hlength, hlisted⟩)))))
  have hsame : SameColumns boost (before ++ after) text e ↔ ∃ e',
      longestMatch (lastListed (before ++ after)) text = some e' ∧
        Tokens.joined (columns boost e') = Tokens.joined (columns boost e) := by
    simp only [SameColumns, longestMatch_eq_some_iff, longestPrefix_listedBy]
    tauto
  push Not at hunreached
  obtain ⟨hne, hprefix, hlater⟩ := hunreached
  rw [longestMatch_marked hne hprefix hlonger hlater, answer_some_iff, ← hsame]
  simp only [hcall, hne, hprefix, hlater, hlonger, ne_eq, not_false_eq_true, not_true_eq_false,
    forall_const, false_or]

end

/-- A longer call sign gets the data of the marked one. -/
theorem not_exactOnly_longer : ¬ ∀ (φ : Type) (boost : Boost φ)
    (before after : List (Bytes × Entity φ)) (k : Bytes) (e : Entity φ) (request : Request)
    (reply : Reply), ExactOnly boost before k e after request reply := by
  intro h
  have hsame := h Bytes sampleBoost [(bytes "LU", sampleCountry)] [] (bytes "LU1ZA") sampleIsland
    { content := bytes "LU1ZAB" } {} (by decide)
  rw [sendDXCC_table, sendDXCC_table] at hsame
  exact absurd hsame (by decide)

end Hamlog.Server.DXCC
