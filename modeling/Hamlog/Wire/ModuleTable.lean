import Hamlog.Library.Modules
import Hamlog.Server.ModuleManager
import Hamlog.Wire.ReplyRoundTrip

/-! # The list of modules on its way to the client

`ModuleManager::sendModulesList` ends each field of a module with a `;` and
erases the last line end. `ham_csv_parse` drops a last row whose last field is
empty, so the client never learns of the last module.
-/
namespace Hamlog.Wire
open Foundation Server Library

variable {κ σ : Type*}

/-- The entry that a module should have in the table of the client. -/
def clientModule (responder : Responder κ σ) : HAMModule where
  uri := some responder.uri
  name := some responder.name
  desc := some responder.description
  needAuth := responder.needAuthentication
  type := responder.type.toNat

/-- What the client does with the list of modules gives a table with exactly one entry for each
module. `start` is what the array of the CSV reader holds. -/
def TableAgrees (start : Bytes) (manager : ModuleManager κ σ) : Prop :=
  ∃ table event, hamConnectHandleResponse start {} (receivedReply (manager.sendModulesList {})) =
      some (table, event) ∧
    (hamHashTableToList table).Perm (manager.modules.map clientModule)

/-- A module whose texts need no quotes. -/
def Unquoted (responder : Responder κ σ) : Prop :=
  ∀ text ∈ [responder.uri, responder.name, responder.description], ∀ c ∈ text,
    c ≠ ch ';' ∧ c ≠ quote ∧ c ≠ cr ∧ c ≠ lf

/-- The fields of a module. -/
def moduleTexts (responder : Responder κ σ) : List Bytes :=
  [responder.uri, responder.name, responder.description, decimal responder.type.toNat,
    bytes (if responder.needAuthentication then "1" else "0")]

theorem moduleLine_eq (responder : Responder κ σ) :
    ModuleManager.moduleLine responder =
      (moduleTexts responder).flatMap (· ++ bytes ";") ++ [lf] := by
  have hlf : ch '\n' = lf := rfl
  cases hneed : responder.needAuthentication <;>
    simp [ModuleManager.moduleLine, moduleTexts, hneed, hlf, bytes]

/-- The texts of a module without zeros stand for themselves. -/
theorem moduleTexts_plain {responder : Responder κ σ} (h : Unquoted responder)
    (hzero : ∀ text ∈ [responder.uri, responder.name, responder.description], 0 ∉ text) :
    ∀ text ∈ moduleTexts responder, ∀ c ∈ text, Tokens.isPlain c := by
  have hnumbers : ∀ text ∈ [decimal responder.type.toNat,
      bytes (if responder.needAuthentication then "1" else "0")], ∀ c ∈ text,
      Tokens.isPlain c := by
    cases responder.type <;> cases responder.needAuthentication <;> decide
  intro text htext c hc
  rcases List.mem_append (s := [_, _, _]) |>.mp htext with htext | htext
  · obtain ⟨hsemi, hquote, hcr, hlf⟩ := h text htext c hc
    exact Tokens.isPlain_iff.mpr ⟨fun heq => hzero text htext (heq ▸ hc), hquote, hsemi, hlf, hcr⟩
  · exact hnumbers text htext c hc

/-! ## The rows of the client -/

def listHeader : List Bytes :=
  [bytes "uri", bytes "name", bytes "desc", bytes "type", bytes "need_auth"]

theorem listHeader_eq :
    bytes "uri;name;desc;type;need_auth\n" = Tokens.joined listHeader ++ [lf] := by decide

/-- The fields of a module and the empty one behind the last `;`. -/
def moduleRow (responder : Responder κ σ) : List Bytes := moduleTexts responder ++ [[]]

/-- Complete lines of modules are read as rows. -/
theorem scan_moduleLines {responders : List (Responder κ σ)}
    (h : ∀ responder ∈ responders, ∀ text ∈ moduleTexts responder, ∀ c ∈ text, Tokens.isPlain c)
    (rows : List (List Bytes)) (rest : Bytes) :
    Tokens.scan false { rows } (responders.flatMap ModuleManager.moduleLine ++ rest) =
      Tokens.scan false { rows := rows ++ responders.map moduleRow } rest := by
  induction responders generalizing rows with
  | nil => simp
  | cons responder responders ih =>
    have hfields := Tokens.scan_fields (t := { rows }) (h responder List.mem_cons_self) rfl rfl
      (lf :: (responders.flatMap ModuleManager.moduleLine ++ rest))
    have hrest := ih (fun other hother => h other (List.mem_cons_of_mem _ hother))
      (rows ++ [moduleRow responder])
    rw [List.flatMap_cons, moduleLine_eq, List.append_assoc, List.append_assoc,
      List.singleton_append, hfields, Tokens.scan_lf rfl]
    simpa [Tokens.endRow, moduleRow] using hrest

/-- What the CSV reader of the client has read at the end of the list. -/
theorem scan_list {responders : List (Responder κ σ)} {last : Responder κ σ}
    (h : ∀ responder ∈ responders ++ [last], ∀ text ∈ moduleTexts responder, ∀ c ∈ text,
      Tokens.isPlain c) :
    Tokens.scan false {} (bytes "uri;name;desc;type;need_auth\n" ++
        (responders ++ [last]).flatMap ModuleManager.moduleLine).dropLast =
      { rows := listHeader :: responders.map moduleRow, row := moduleTexts last } := by
  have hheader : ∀ text ∈ listHeader, ∀ c ∈ text, Tokens.isPlain c := by decide
  have hstands : List.Forall₂ Tokens.Stands listHeader listHeader :=
    List.forall₂_same.mpr fun text htext => Tokens.stands_plain (hheader text htext)
  have hdrop : (bytes "uri;name;desc;type;need_auth\n" ++
      (responders ++ [last]).flatMap ModuleManager.moduleLine).dropLast =
      Tokens.joined listHeader ++ lf :: (responders.flatMap ModuleManager.moduleLine ++
        ((moduleTexts last).flatMap (· ++ bytes ";") ++ [])) := by
    rw [listHeader_eq, List.flatMap_append, List.flatMap_singleton, moduleLine_eq,
      ← List.append_assoc, ← List.append_assoc, List.dropLast_concat]
    simp
  have hlines := scan_moduleLines (fun responder hmem => h responder (List.mem_append_left _ hmem))
    [listHeader] ((moduleTexts last).flatMap (· ++ bytes ";") ++ [])
  have hlast := Tokens.scan_fields (t := { rows := [listHeader] ++ responders.map moduleRow })
    (h last (List.mem_append_right _ (List.mem_singleton_self _))) rfl rfl []
  rw [hdrop, Tokens.scan_line hstands (by decide) rfl rfl]
  exact hlines.trans hlast

/-- The columns of the list are found, and a row is read as the entry of its module. -/
theorem readModule_moduleRow (responder : Responder κ σ) :
    readModule (readColumns 0 {} listHeader) 0 {} (moduleRow responder) =
      clientModule responder := by
  have hcolumns : readColumns 0 {} listHeader = ⟨0, 1, 2, 4, 3⟩ := by decide
  have hauth : ((bytes (if responder.needAuthentication then "1" else "0")).head? ==
      some (ch '1')) = responder.needAuthentication := by
    cases responder.needAuthentication <;> decide
  rw [hcolumns]
  simp [readModule, moduleRow, moduleTexts, clientModule, atoi_decimal, hauth]

/-- The list is sent as it is: it holds no zeros and no carriage returns. -/
theorem list_sent {responders : List (Responder κ σ)}
    (h : ∀ responder ∈ responders, ∀ text ∈ moduleTexts responder, ∀ c ∈ text,
      Tokens.isPlain c) :
    let list := (bytes "uri;name;desc;type;need_auth\n" ++
      responders.flatMap ModuleManager.moduleLine).dropLast
    cstr (list.filter (· ≠ cr)) = list := by
  have hheader : ∀ c ∈ bytes "uri;name;desc;type;need_auth\n", c ≠ 0 ∧ c ≠ cr := by decide
  have hends : ∀ c ∈ [ch ';', lf], c ≠ 0 ∧ c ≠ cr := by decide
  have hline (responder : Responder κ σ) (hmem : responder ∈ responders) (c : Byte)
      (hc : c ∈ ModuleManager.moduleLine responder) : c ≠ 0 ∧ c ≠ cr := by
    rw [moduleLine_eq, List.mem_append, List.mem_flatMap, List.mem_singleton] at hc
    rcases hc with ⟨text, htext, hc⟩ | rfl
    · rcases List.mem_append.mp hc with hc | hc
      · have hplain := Tokens.isPlain_iff.mp (h responder hmem text htext c hc)
        exact ⟨hplain.1, hplain.2.2.2.2⟩
      · exact hends c (List.mem_cons.mpr (Or.inl (List.mem_singleton.mp hc)))
    · exact hends lf (by simp)
  have hclean (c : Byte) (hc : c ∈ (bytes "uri;name;desc;type;need_auth\n" ++
      responders.flatMap ModuleManager.moduleLine).dropLast) : c ≠ 0 ∧ c ≠ cr := by
    rcases List.mem_append.mp (List.mem_of_mem_dropLast hc) with hc | hc
    · exact hheader c hc
    · obtain ⟨responder, hmem, hc⟩ := List.mem_flatMap.mp hc
      exact hline responder hmem c hc
  dsimp only
  rw [List.filter_eq_self.mpr fun c hc => decide_eq_true (hclean c hc).2]
  exact cstr_of_notMem fun hzero => (hclean 0 hzero).1 rfl

/-! ## The table -/

/-- What a list without carriage returns gives in the table of a new connection. -/
theorem handled_entries {start : Bytes} {manager : ModuleManager κ σ}
    {table : HAMHashTable HAMModule} {event : Event}
    (h : hamConnectHandleResponse start {} (receivedReply (manager.sendModulesList {})) =
      some (table, event)) :
    ∃ header rows, hamCsvParse start (cstr ((manager.sendModulesList {}).content.filter (· ≠ cr))) =
        some (header :: rows) ∧
      ∀ module ∈ hamHashTableToList table, ∃ row ∈ rows,
        module = readModule (readColumns 0 {} header) 0 {} row := by
  have hok : (receivedReply (manager.sendModulesList {})).status = 200 := rfl
  rw [hamConnectHandleResponse, if_pos hok] at h
  obtain ⟨table', hparse, heq⟩ := Option.map_eq_some_iff.mp h
  obtain rfl := (Prod.mk.inj heq).1
  obtain ⟨lines, hlines, hadd⟩ := Option.bind_eq_some_iff.mp hparse
  cases lines with
  | nil => exact absurd hadd (by simp)
  | cons header rows =>
    refine ⟨header, rows, hlines, fun module hmodule => ?_⟩
    refine (addModules_entries hadd hmodule).resolve_left ?_
    simp [mem_hamHashTableToList]

/-- The last module is never in the table. -/
theorem not_tableAgrees (start : Bytes) {manager : ModuleManager κ σ} (hne : manager.modules ≠ [])
    (hnodup : (manager.modules.map (·.uri)).Nodup)
    (hunquoted : ∀ responder ∈ manager.modules, Unquoted responder) :
    ¬ TableAgrees start manager := by
  rintro ⟨table, event, hresponse, hperm⟩
  obtain ⟨header, rows, hlines, hentries⟩ := handled_entries hresponse
  by_cases hzero : ∀ responder ∈ manager.modules, ∀ text ∈ [responder.uri, responder.name,
      responder.description], 0 ∉ text
  · obtain ⟨modules, last, hmodules⟩ :=
      (List.eq_nil_or_concat manager.modules).resolve_left hne
    rw [List.concat_eq_append] at hmodules
    have hplain (responder : Responder κ σ) (hmem : responder ∈ modules ++ [last]) :=
      moduleTexts_plain (hunquoted responder (hmodules ▸ hmem)) (hzero responder (hmodules ▸ hmem))
    have hscan := scan_list hplain
    rw [ModuleManager.sendModulesList, hmodules, Reply.setContent, list_sent hplain] at hlines
    have hrows := hamCsvParse_of_field_nil hlines (by rw [hscan]) (by rw [hscan]; simp)
    rw [hscan] at hrows
    obtain ⟨rfl, rfl⟩ := List.cons.inj hrows
    have hlast : clientModule last ∈ hamHashTableToList table :=
      hperm.mem_iff.mpr (by simp [hmodules])
    obtain ⟨row, hrow, heq⟩ := hentries _ hlast
    obtain ⟨other, hother, rfl⟩ := List.mem_map.mp hrow
    rw [readModule_moduleRow] at heq
    have huri : last.uri = other.uri := Option.some.inj (congrArg HAMModule.uri heq)
    rw [hmodules, List.map_append, List.nodup_append] at hnodup
    exact hnodup.2.2 _ (List.mem_map_of_mem hother) _ (List.mem_singleton_self _) huri.symm
  · push Not at hzero
    obtain ⟨responder, hmem, text, htext, hzero⟩ := hzero
    have hentry : clientModule responder ∈ hamHashTableToList table :=
      hperm.mem_iff.mpr (List.mem_map_of_mem hmem)
    obtain ⟨row, hrow, heq⟩ := hentries _ hentry
    have hsome : some text ∈ [(clientModule responder).uri, (clientModule responder).name,
        (clientModule responder).desc] := by
      simpa [clientModule] using htext
    rw [heq] at hsome
    rcases readModule_texts hsome with hnone | hfield
    · simp at hnone
    · exact hamCsvParse_noZero hlines (List.mem_cons_of_mem _ hrow) hfield hzero

/-- A server with two modules. -/
def sampleManager : ModuleManager Unit Unit where
  modules := [⟨bytes "/logbook", bytes "LogBook module", [], .unknown, true,
      fun _ _ _ reply => (true, reply, ())⟩,
    ⟨bytes "/qrz", bytes "QRZ.com module", [], .callinfo, true,
      fun _ _ _ reply => (true, reply, ())⟩]
  isAuthenticated _ _ := true

theorem not_tableAgrees_sampleManager : ¬ TableAgrees (List.replicate 65535 0) sampleManager :=
  not_tableAgrees _ (by simp [sampleManager]) (by decide)
    (by
      unfold Unquoted
      decide)

/-- The table has one entry for two modules. -/
theorem not_tableAgrees_two : ¬ TableAgrees (List.replicate 65535 0) sampleManager := by
  rintro ⟨table, event, hresponse, hperm⟩
  have hone : (hamConnectHandleResponse (List.replicate 65535 0) {}
      (receivedReply (sampleManager.sendModulesList {}))).map
        (fun result => (hamHashTableToList result.1).length) = some 1 := by decide +kernel
  rw [hresponse, Option.map_some, Option.some.injEq, hperm.length_eq] at hone
  exact absurd hone (by decide)

end Hamlog.Wire
