import Hamlog.Foundation.LongestPrefix
import Hamlog.Server.ModuleManager
import Hamlog.Wire.Csv
import Std.Data.TreeMap.Lemmas

/-! # The DXCC module

The constructor reads the prefixes of all countries from `cty.csv` into one map,
and a `/dxcc` request is answered with the country of the longest prefix of its
call sign in the map. A full call sign, marked with `=` in the file, is put into
the map like a prefix. The conversions of Boost are parameters.
-/
namespace Hamlog.Server
open Foundation Wire

/-- What the module uses of Boost: `boost::lexical_cast` between texts and values of type `int` and
`float`, where `none` is `bad_lexical_cast`, and `boost::algorithm::to_upper`. -/
structure Boost (φ : Type) where
  parseInt : Bytes → Option ℤ
  parseFloat : Bytes → Option φ
  printFloat : φ → Bytes
  toUpper : Bytes → Bytes

namespace DXCC
variable {φ : Type} (boost : Boost φ)

structure Entity (φ : Type) where
  name : Bytes
  continent : Bytes
  tz : φ
  lon : φ
  lat : φ
  cq : ℤ
  itu : ℤ
  deriving DecidableEq

/-- `m_prefixes` -/
abbrev Prefixes (φ : Type) := Std.TreeMap Bytes (Entity φ) compare

/-! ## Loading -/

/-- A prefix of the file without the mark of a full call sign. -/
def unmarked (entry : Bytes) : Bytes := if entry.head? = some (ch '=') then entry.tail else entry

def assign (prefixes : Prefixes φ) (entry : Bytes × Entity φ) : Prefixes φ :=
  prefixes.insert (unmarked entry.1) entry.2

/-- `substr(0, size() - 2)`; the difference is unsigned. -/
def withoutLastTwo (text : Bytes) : Bytes :=
  if text.length < 2 then text else text.take (text.length - 2)

/-- The entries of a line with the country they are assigned; a line that does not have ten fields
is skipped. `none` is an exception of a conversion. -/
def lineEntries (line : Bytes) : Option (List (Bytes × Entity φ)) :=
  match line.splitOn (ch ',') with
  | [_, name, _, continent, cq, itu, lat, lon, tz, last] => do
    let e : Entity φ :=
      { name, continent
        cq := ← boost.parseInt cq
        itu := ← boost.parseInt itu
        lat := ← boost.parseFloat lat
        lon := ← boost.parseFloat lon
        tz := ← boost.parseFloat tz }
    some (((withoutLastTwo last).splitOn (ch ' ')).map fun entry => (entry, e))
  | _ => some []

/-- One turn of the loop over the file. -/
def loadLine (prefixes : Prefixes φ) (line : Bytes) : Option (Prefixes φ) :=
  (lineEntries boost line).map fun entries => entries.foldl assign prefixes

/-- The constructor; without the file the map stays empty. -/
def new (file : Option Bytes) : Option (Prefixes φ) :=
  match file with
  | none => some ∅
  | some text => (text.splitOn lf).foldlM (loadLine boost) ∅

/-! ## Requests -/

def header : Bytes := bytes "call;qth;continent;cq;itu;latitude;longitude;tz\n"

/-- The columns behind the call sign. -/
def columns (e : Entity φ) : List Bytes :=
  [e.name, e.continent, decimalInt e.cq, decimalInt e.itu, boost.printFloat e.lat,
    boost.printFloat e.lon, boost.printFloat e.tz]

def found (reply : Reply) (call : Bytes) (e : Entity φ) : Reply :=
  reply.setContent (header ++ Tokens.joined (call :: columns boost e))

def unknown (reply : Reply) : Reply :=
  (reply.setStatus .badRequest).setContent (bytes "unknown")

/-- The call sign loses its last character until the map has it. -/
def sendDXCC (prefixes : Prefixes φ) (request : Request) (reply : Reply) : Reply :=
  match longestMatch (prefixes[·]?) (boost.toUpper request.content) with
  | some e => found boost reply request.content e
  | none => unknown reply

def handleRequest (prefixes : Prefixes φ) (request : Request) (reply : Reply) : Bool × Reply :=
  if request.uri = bytes "/dxcc" then (true, sendDXCC boost prefixes request reply)
  else (false, reply)

/-- The module in the server, for a map that the constructor made. -/
def responder (prefixes : Prefixes φ) : Responder Unit Unit where
  uri := bytes "/dxcc"
  name := bytes "DXCC module"
  type := .callinfo
  needAuthentication := false
  handleRequest _ state request reply :=
    let handled := handleRequest boost prefixes request reply
    (handled.1, handled.2, state)

/-! ## What the map holds -/

/-- The country of the last entry that lists a prefix. -/
def lastListed (entries : List (Bytes × Entity φ)) (p : Bytes) : Option (Entity φ) :=
  (entries.reverse.find? fun entry => unmarked entry.1 = p).map (·.2)

theorem lastListed_append (entries others : List (Bytes × Entity φ)) (p : Bytes) :
    lastListed (entries ++ others) p = (lastListed others p).or (lastListed entries p) := by
  rw [lastListed, List.reverse_append, List.find?_append, Option.map_or]
  rfl

theorem lastListed_singleton (entry : Bytes × Entity φ) (p : Bytes) :
    lastListed [entry] p = if unmarked entry.1 = p then some entry.2 else none := by
  rw [lastListed, List.reverse_singleton, List.find?_singleton]
  split_ifs <;> simp_all

theorem isSome_lastListed {entries : List (Bytes × Entity φ)} {p : Bytes} :
    (lastListed entries p).isSome ↔ ∃ entry ∈ entries, unmarked entry.1 = p := by
  simp [lastListed]

/-- Entries of one country. -/
theorem lastListed_map (entries : List Bytes) (e : Entity φ) (p : Bytes) :
    lastListed (entries.map fun entry => (entry, e)) p =
      if ∃ entry ∈ entries, unmarked entry = p then some e else none := by
  induction entries with
  | nil => simp [lastListed]
  | cons entry entries ih =>
    have hcons := lastListed_append [(entry, e)] (entries.map fun entry => (entry, e)) p
    rw [List.map_cons, ← List.singleton_append, hcons, ih, lastListed_singleton]
    by_cases hentry : unmarked entry = p
    · simp only [hentry, if_true, List.mem_cons, exists_eq_or_imp, true_or]
      split_ifs <;> rfl
    · simp [hentry]

theorem getElem?_assign (prefixes : Prefixes φ) (entry : Bytes × Entity φ) (p : Bytes) :
    (assign prefixes entry)[p]? = (lastListed [entry] p).or prefixes[p]? := by
  rw [assign, Std.TreeMap.getElem?_insert, lastListed_singleton]
  simp only [Std.LawfulEqCmp.compare_eq_iff_eq]
  split_ifs <;> rfl

/-- Later entries replace earlier ones. -/
theorem getElem?_foldl_assign (entries : List (Bytes × Entity φ)) (prefixes : Prefixes φ)
    (p : Bytes) : (entries.foldl assign prefixes)[p]? = (lastListed entries p).or prefixes[p]? := by
  induction entries generalizing prefixes with
  | nil => rfl
  | cons entry entries ih =>
    have hcons : lastListed (entry :: entries) p =
        (lastListed entries p).or (lastListed [entry] p) := lastListed_append [entry] entries p
    rw [List.foldl_cons, ih, getElem?_assign, hcons, Option.or_assoc]

/-! ## The lines of the file -/

/-- A line of ten fields that ends with `;` and a carriage return, with the country it is about
and the entries of its last field. -/
def Describes (line : Bytes) (e : Entity φ) (entries : List Bytes) : Prop :=
  ∃ code number cq itu lat lon tz last,
    line.splitOn (ch ',') =
      [code, e.name, number, e.continent, cq, itu, lat, lon, tz, last ++ [ch ';', cr]] ∧
    boost.parseInt cq = some e.cq ∧ boost.parseInt itu = some e.itu ∧
    boost.parseFloat lat = some e.lat ∧ boost.parseFloat lon = some e.lon ∧
    boost.parseFloat tz = some e.tz ∧ entries = last.splitOn (ch ' ')

/-- All lines of ten fields end with `;` and a carriage return, and their numbers convert. -/
def CtyFile (file : Bytes) : Prop :=
  ∀ line ∈ file.splitOn lf, (line.splitOn (ch ',')).length = 10 →
    ∃ e entries, Describes boost line e entries

/-- The line lists a prefix of its country. -/
def Lists (line p : Bytes) (e : Entity φ) : Prop :=
  ∃ entries, Describes boost line e entries ∧ ∃ entry ∈ entries, unmarked entry = p

/-- Some line of the file lists the prefix. -/
def Listed (file p : Bytes) : Prop := ∃ line ∈ file.splitOn lf, ∃ e, Lists boost line p e

/-- What lines put into the map. -/
structure Loads (lines : List Bytes) (prefixes loaded : Prefixes φ) : Prop where
  last : ∀ {p before line after e}, lines = before ++ line :: after → Lists boost line p e →
    (∀ other ∈ after, ∀ e', ¬ Lists boost other p e') → loaded[p]? = some e
  kept : ∀ {p}, (∀ line ∈ lines, ∀ e, ¬ Lists boost line p e) → loaded[p]? = prefixes[p]?
  isSome : ∀ {p line e}, line ∈ lines → Lists boost line p e → loaded[p]?.isSome

variable {boost}

theorem withoutLastTwo_append (text : Bytes) (c d : Byte) :
    withoutLastTwo (text ++ [c, d]) = text := by
  simp [withoutLastTwo]

theorem loadLine_describes {line : Bytes} {e : Entity φ} {entries : List Bytes}
    (h : Describes boost line e entries) (prefixes : Prefixes φ) :
    loadLine boost prefixes line =
      some ((entries.map fun entry => (entry, e)).foldl assign prefixes) := by
  obtain ⟨code, number, cq, itu, lat, lon, tz, last, hsplit, hcq, hitu, hlat, hlon, htz, rfl⟩ := h
  rw [loadLine, lineEntries, hsplit]
  simp [hcq, hitu, hlat, hlon, htz, withoutLastTwo_append]

theorem loadLine_other {line : Bytes} (h : (line.splitOn (ch ',')).length ≠ 10)
    (prefixes : Prefixes φ) : loadLine boost prefixes line = some prefixes := by
  rw [loadLine, lineEntries]
  split
  · rename_i hsplit
    exact absurd (by rw [hsplit]; rfl) h
  · rfl

/-- A line says one thing. -/
theorem Describes.unique {line : Bytes} {e e' : Entity φ} {entries entries' : List Bytes}
    (h : Describes boost line e entries) (h' : Describes boost line e' entries') :
    e = e' ∧ entries = entries' := by
  obtain ⟨_, _, _, _, _, _, _, _, hsplit, hcq, hitu, hlat, hlon, htz, rfl⟩ := h
  obtain ⟨_, _, _, _, _, _, _, _, hsplit', hcq', hitu', hlat', hlon', htz', rfl⟩ := h'
  rw [hsplit] at hsplit'
  simp only [List.cons.injEq, List.append_cancel_right_eq, and_true] at hsplit'
  obtain ⟨-, hname, -, hcontinent, rfl, rfl, rfl, rfl, rfl, rfl⟩ := hsplit'
  cases e
  cases e'
  simp_all

theorem Describes.lists_iff {line : Bytes} {e : Entity φ} {entries : List Bytes}
    (h : Describes boost line e entries) {p : Bytes} {e' : Entity φ} :
    Lists boost line p e' ↔ e = e' ∧ ∃ entry ∈ entries, unmarked entry = p := by
  constructor
  · rintro ⟨entries', hother, hentry⟩
    obtain ⟨rfl, rfl⟩ := h.unique hother
    exact ⟨rfl, hentry⟩
  · rintro ⟨rfl, hentry⟩
    exact ⟨entries, h, hentry⟩

theorem not_lists_other {line : Bytes} (h : (line.splitOn (ch ',')).length ≠ 10) (p : Bytes)
    (e : Entity φ) : ¬ Lists boost line p e := by
  rintro ⟨_, ⟨_, _, _, _, _, _, _, _, hsplit, -⟩, -⟩
  exact h (by rw [hsplit]; rfl)

theorem loads_line {line : Bytes} (h : (line.splitOn (ch ',')).length = 10 →
    ∃ e entries, Describes boost line e entries) (prefixes : Prefixes φ) :
    ∃ loaded, loadLine boost prefixes line = some loaded ∧
      (∀ {p e}, Lists boost line p e → loaded[p]? = some e) ∧
      ∀ {p}, (∀ e, ¬ Lists boost line p e) → loaded[p]? = prefixes[p]? := by
  by_cases hten : (line.splitOn (ch ',')).length = 10
  · obtain ⟨e, entries, hline⟩ := h hten
    refine ⟨_, loadLine_describes hline prefixes, fun hlists => ?_, fun hnone => ?_⟩
    · obtain ⟨rfl, hentry⟩ := hline.lists_iff.mp hlists
      rw [getElem?_foldl_assign, lastListed_map, if_pos hentry]
      rfl
    · rw [getElem?_foldl_assign, lastListed_map, if_neg fun hentry => hnone e ⟨_, hline, hentry⟩]
      rfl
  · exact ⟨prefixes, loadLine_other hten prefixes,
      fun hlists => absurd hlists (not_lists_other hten _ _), fun _ => rfl⟩

/-- The loop over the file: the last line that lists a prefix decides. -/
theorem loads_lines {lines : List Bytes} (h : ∀ line ∈ lines,
    (line.splitOn (ch ',')).length = 10 → ∃ e entries, Describes boost line e entries)
    (prefixes : Prefixes φ) :
    ∃ loaded, lines.foldlM (loadLine boost) prefixes = some loaded ∧
      Loads boost lines prefixes loaded := by
  induction lines generalizing prefixes with
  | nil => exact ⟨prefixes, rfl, by simp, fun _ => rfl, by simp⟩
  | cons line lines ih =>
    obtain ⟨mid, hline, hlists, hkept⟩ := loads_line (h line List.mem_cons_self) prefixes
    obtain ⟨loaded, hrest, hloads⟩ :=
      ih (fun other hmem => h other (List.mem_cons_of_mem _ hmem)) mid
    refine ⟨loaded, by rw [List.foldlM_cons, hline]; exact hrest, ?_, ?_, ?_⟩
    · intro p before other after e hsplit hother hafter
      cases before with
      | nil =>
        obtain ⟨rfl, rfl⟩ := List.cons.inj hsplit
        rw [hloads.kept hafter, hlists hother]
      | cons _ before => exact hloads.last (List.cons.inj hsplit).2 hother hafter
    · intro p hnone
      rw [hloads.kept fun other hmem => hnone other (List.mem_cons_of_mem _ hmem),
        hkept (hnone line List.mem_cons_self)]
    · intro p other e hmem hother
      by_cases hlater : ∃ later ∈ lines, ∃ e', Lists boost later p e'
      · obtain ⟨later, hlater, e', hlists'⟩ := hlater
        exact hloads.isSome hlater hlists'
      · push Not at hlater
        rcases List.mem_cons.mp hmem with rfl | hmem
        · rw [hloads.kept hlater, hlists hother]
          rfl
        · exact absurd hother (hlater other hmem e)

/-- The request is answered with the last country of the longest listed prefix, or refused when no
prefix is listed. -/
theorem handleRequest_longest {file : Bytes} (hfile : CtyFile boost file) :
    ∃ prefixes, new boost (some file) = some prefixes ∧ ∀ (request : Request) (reply : Reply),
      request.uri = bytes "/dxcc" →
      (∀ p before line after e,
        LongestPrefix (Listed boost file) (boost.toUpper request.content) p →
        file.splitOn lf = before ++ line :: after → Lists boost line p e →
        (∀ other ∈ after, ∀ e', ¬ Lists boost other p e') →
        handleRequest boost prefixes request reply = (true, reply.setContent
          (bytes "call;qth;continent;cq;itu;latitude;longitude;tz\n" ++
            Tokens.joined [request.content, e.name, e.continent, decimalInt e.cq, decimalInt e.itu,
              boost.printFloat e.lat, boost.printFloat e.lon, boost.printFloat e.tz]))) ∧
      ((∀ p, p ≠ [] → p <+: boost.toUpper request.content → ¬ Listed boost file p) →
        handleRequest boost prefixes request reply =
          (true, (reply.setStatus .badRequest).setContent (bytes "unknown"))) := by
  obtain ⟨prefixes, hnew, hloads⟩ := loads_lines hfile ∅
  have hlisted (p : Bytes) : prefixes[p]?.isSome ↔ Listed boost file p := by
    refine ⟨fun hsome => ?_, fun ⟨line, hmem, e, hlists⟩ => hloads.isSome hmem hlists⟩
    by_contra hnone
    rw [hloads.kept fun line hmem e hlists => hnone ⟨line, hmem, e, hlists⟩] at hsome
    simp at hsome
  refine ⟨prefixes, hnew, fun request reply huri => ⟨?_, ?_⟩⟩
  · intro p before line after e hlongest hsplit hlists hafter
    have hmatch : longestMatch (prefixes[·]?) (boost.toUpper request.content) = some e := by
      refine longestMatch_eq_some_iff.mpr ⟨p, ?_, hloads.last hsplit hlists hafter⟩
      exact (LongestPrefix.congr fun q _ _ => hlisted q).mpr hlongest
    rw [handleRequest, if_pos huri, sendDXCC, hmatch]
    rfl
  · intro hnone
    have hmatch : longestMatch (prefixes[·]?) (boost.toUpper request.content) = none := by
      refine longestMatch_eq_none_iff.mpr fun p hp hprefix => ?_
      rw [← Option.not_isSome_iff_eq_none, hlisted]
      exact hnone p hp hprefix
    rw [handleRequest, if_pos huri, sendDXCC, hmatch]
    rfl

/-- Digits with an optional sign, whose number is an `int`. -/
def sampleParseInt (text : Bytes) : Option ℤ :=
  let signed := text.head? = some (ch '-') ∨ text.head? = some (ch '+')
  let digits := if signed then text.tail else text
  let value : ℤ := if text.head? = some (ch '-') then -decimalValue digits else decimalValue digits
  if digits ≠ [] ∧ digits.all isDigit ∧ -2 ^ 31 ≤ value ∧ value < 2 ^ 31 then some value else none

/-- Floats as the texts of numbers that they print as; letters as in the classic locale. -/
def sampleBoost : Boost Bytes where
  parseInt := sampleParseInt
  parseFloat := some
  printFloat := id
  toUpper text := text.map fun c => if ch 'a' ≤ c ∧ c ≤ ch 'z' then c - 32 else c

def sampleLine : Bytes := bytes "LU,Argentina,100,SA,13,14,-34.5,58.5,3,LU L2;\r"

def sampleIslandLine : Bytes := bytes "VP8/o,South Orkney,238,SA,13,73,-60.5,45.5,3,=LU1ZA;\r"

def sampleCountry : Entity Bytes where
  name := bytes "Argentina"
  continent := bytes "SA"
  tz := bytes "3"
  lon := bytes "58.5"
  lat := bytes "-34.5"
  cq := 13
  itu := 14

def sampleIsland : Entity Bytes where
  name := bytes "South Orkney"
  continent := bytes "SA"
  tz := bytes "3"
  lon := bytes "45.5"
  lat := bytes "-60.5"
  cq := 13
  itu := 73

def sampleFile : Bytes := sampleLine ++ lf :: (sampleIslandLine ++ [lf])

theorem describes_sampleLine :
    Describes sampleBoost sampleLine sampleCountry [bytes "LU", bytes "L2"] :=
  ⟨bytes "LU", bytes "100", bytes "13", bytes "14", bytes "-34.5", bytes "58.5", bytes "3",
    bytes "LU L2", by decide, by decide, by decide, rfl, rfl, rfl, by decide⟩

theorem describes_sampleIslandLine :
    Describes sampleBoost sampleIslandLine sampleIsland [bytes "=LU1ZA"] :=
  ⟨bytes "VP8/o", bytes "238", bytes "13", bytes "73", bytes "-60.5", bytes "45.5", bytes "3",
    bytes "=LU1ZA", by decide, by decide, by decide, rfl, rfl, rfl, by decide⟩

theorem sampleFile_lines : sampleFile.splitOn lf = [sampleLine, sampleIslandLine, []] := by decide

/-- A marked call sign of the last line. -/
theorem handleRequest_longest_island : ∃ prefixes,
    new sampleBoost (some sampleFile) = some prefixes ∧
    handleRequest sampleBoost prefixes
      { uri := bytes "/dxcc", content := bytes "lu1za" } {} =
      (true, Reply.setContent {} (bytes ("call;qth;continent;cq;itu;latitude;longitude;tz\n" ++
        "lu1za;South Orkney;SA;13;73;-60.5;45.5;3"))) := by
  have hfile : CtyFile sampleBoost sampleFile := by
    intro line hline hten
    rw [sampleFile_lines] at hline
    simp only [List.mem_cons, List.not_mem_nil, or_false] at hline
    rcases hline with rfl | rfl | rfl
    · exact ⟨_, _, describes_sampleLine⟩
    · exact ⟨_, _, describes_sampleIslandLine⟩
    · exact absurd hten (by decide)
  have hlists : Lists sampleBoost sampleIslandLine (bytes "LU1ZA") sampleIsland :=
    ⟨_, describes_sampleIslandLine, bytes "=LU1ZA", by decide, by decide⟩
  have hcall : LongestPrefix (Listed sampleBoost sampleFile) (sampleBoost.toUpper (bytes "lu1za"))
      (bytes "LU1ZA") :=
    ⟨by decide, by decide, ⟨_, by rw [sampleFile_lines]; simp, _, hlists⟩,
      fun _ _ hprefix _ => hprefix.length_le⟩
  obtain ⟨prefixes, hnew, hanswer⟩ := handleRequest_longest hfile
  refine ⟨prefixes, hnew, ((hanswer { uri := bytes "/dxcc", content := bytes "lu1za" } {} rfl).1
    (bytes "LU1ZA") [sampleLine] sampleIslandLine [[]] sampleIsland hcall sampleFile_lines hlists
    fun other hother e' => ?_).trans (by decide)⟩
  obtain rfl := List.mem_singleton.mp hother
  exact not_lists_other (by decide) _ _

end DXCC
end Hamlog.Server
