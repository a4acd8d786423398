import Bindery.Proofs.Round.Settings
/-!
# Documents over defaults

What a document says is put over the defaults, setting by setting (`Config.ofEntries?_iff`). What
may be said is a matter of names and kinds of values (`Config.WellTyped`). What has to be a path, a
name or a type is looked at afterwards, in one order (`Config.check_error_iff`). A configuration
that has come through both has a generator.
-/

namespace Bindery

/-! ## What is said under a name -/

namespace Toml

variable {α : Type} {read : Value → Option α} {name : String}

/-- A value that is a text. -/
def Value.text? : Value → Option String
  | .text content => some content
  | _ => none

/-- A value that is a table. -/
def Value.table? : Value → Option (List (String × Value))
  | .table entries => some entries
  | _ => none

theorem Value.table?_isSome_iff {value : Value} :
    value.table?.isSome = true ↔ ∃ entries, value = .table entries := by
  cases value <;> simp [table?]

/-- What an entry says under a name, read in some way. -/
def under? (read : Value → Option α) (name : String) (entry : String × Value) : Option α :=
  if entry.1 = name then read entry.2 else none

/-- What entries say under a name; the last of them counts. -/
def last? (read : Value → Option α) (name : String) (entries : List (String × Value)) : Option α :=
  entries.reverse.findSome? (under? read name)

theorem last?_nil : last? read name [] = none :=
  rfl

theorem last?_singleton (entry : String × Value) :
    last? read name [entry] = under? read name entry := by
  rw [last?, List.reverse_singleton, List.findSome?_singleton]

theorem last?_getD_cons (entry : String × Value) (rest : List (String × Value)) (default : α) :
    (last? read name (entry :: rest)).getD default =
      (last? read name rest).getD ((last? read name [entry]).getD default) := by
  rw [last?_singleton, last?, last?, List.reverse_cons, List.findSome?_append,
    List.findSome?_singleton]
  cases List.findSome? _ rest.reverse <;> rfl

/-- All entries are texts under some names. -/
def AreTexts (names : List String) (entries : List (String × Value)) : Prop :=
  ∀ entry ∈ entries, entry.1 ∈ names ∧ ∃ text, entry.2 = .text text

end Toml

/-! ## Setting one thing after the other -/

namespace Setters

variable {γ : Type} {setters : Setters γ} {entries : List (String × Toml.Value)} {group after : γ}

/-- Sets what one entry says. -/
def setOne (setters : Setters γ) (entry : String × Toml.Value) (group : γ) : Option γ := do
  let (_, set) ← setters.find? (·.1 == entry.1)
  set entry.2 group

theorem setAll_cons {entry : String × Toml.Value} :
    setters.setAll (entry :: entries) group =
      (setters.setOne entry group).bind (setters.setAll entries) := by
  rw [setAll, setOne]
  cases setters.find? (·.1 == entry.1) <;> rfl

/-- Where each entry that fits is put over a group, and no other one can be set, all entries are put
over it one after the other. -/
theorem setAll_iff {overlaid : γ → List (String × Toml.Value) → γ}
    {fits : String × Toml.Value → Prop} (nil : ∀ group, overlaid group [] = group)
    (cons : ∀ group entry rest,
      overlaid (overlaid group [entry]) rest = overlaid group (entry :: rest))
    (one : ∀ entry ∈ entries, ∀ group after,
      setters.setOne entry group = some after ↔ fits entry ∧ after = overlaid group [entry]) :
    setters.setAll entries group = some after ↔
      (∀ entry ∈ entries, fits entry) ∧ after = overlaid group entries := by
  induction entries generalizing group with
  | nil =>
    rw [nil]
    exact ⟨fun h => ⟨List.forall_mem_nil _, (Option.some.inj h).symm⟩,
      fun h => congrArg some h.2.symm⟩
  | cons entry rest ih =>
    obtain ⟨hentry, hrest⟩ := List.forall_mem_cons.1 one
    rw [setAll_cons, Option.bind_eq_some_iff, List.forall_mem_cons, ← cons]
    constructor
    · rintro ⟨between, hbetween, h⟩
      obtain ⟨hfits, rfl⟩ := (hentry _ _).1 hbetween
      obtain ⟨hall, hafter⟩ := (ih hrest).1 h
      exact ⟨⟨hfits, hall⟩, hafter⟩
    · rintro ⟨⟨hfits, hall⟩, hafter⟩
      exact ⟨_, (hentry _ _).2 ⟨hfits, rfl⟩, (ih hrest).2 ⟨hall, hafter⟩⟩

end Setters

/-! ## The settings -/

open Toml (last? AreTexts)
open Toml.Value (text? table?)

variable {entries : List (String × Toml.Value)} {entry : String × Toml.Value}

/-- The types of parameters that a table gives, over others. -/
def Params.overlaid (params : Params) (entries : List (String × Toml.Value)) : Params where
  context := (last? text? "context" entries).getD params.context
  method := (last? text? "method" entries).getD params.method
  arguments := (last? text? "arguments" entries).getD params.arguments
  handler := (last? text? "handler" entries).getD params.handler

/-- The names of files that a table gives, over others. -/
def Output.overlaid (output : Output) (entries : List (String × Toml.Value)) : Output where
  providers := (last? text? "providers" entries).getD output.providers
  interceptor := (last? text? "interceptor" entries).getD output.interceptor
  bindings := (last? text? "bindings" entries).getD output.bindings

/-- The parameters that a table makes up, over the defaults. -/
def Params.of? (value : Toml.Value) : Option Params :=
  (table? value).map Params.default.overlaid

/-- The names of files that a table makes up, over the defaults. -/
def Output.of? (value : Toml.Value) : Option Output :=
  (table? value).map Output.default.overlaid

/-- The settings that a document gives, over others. -/
def Config.overlaid (config : Config) (entries : List (String × Toml.Value)) : Config where
  runtime := (last? text? "runtime" entries).getD config.runtime
  crateRoot := (last? text? "crate_root" entries).getD config.crateRoot
  contract := (last? text? "contract" entries).getD config.contract
  params := (last? Params.of? "params" entries).getD config.params
  output := (last? Output.of? "output" entries).getD config.output

/-- No part of a group has another name than those of its setters. -/
theorem Setters.setOne_of_not_mem {γ : Type} {setters : Setters γ} {group : γ}
    (h : entry.1 ∉ setters.map (·.1)) : setters.setOne entry group = none := by
  have hfind : setters.find? (·.1 == entry.1) = none := by
    rw [List.find?_eq_none]
    exact fun setter hsetter hname => h (beq_iff_eq.1 hname ▸ List.mem_map_of_mem hsetter)
  rw [setOne, hfind]
  rfl

/-- A part that is a text can be set to texts. -/
theorem Setters.setOne_text_iff {γ : Type} {setters : Setters γ} {group after : γ}
    {name found : String} {value : Toml.Value} {update : String → γ → γ} {names : List String}
    {overlaid : γ → List (String × Toml.Value) → γ}
    (hfind : setters.find? (·.1 == name) = some (found, setText update)) (hname : name ∈ names)
    (hoverlaid : ∀ text, overlaid group [(name, .text text)] = update text group) :
    setters.setOne (name, value) group = some after ↔
      (name ∈ names ∧ ∃ text, value = .text text) ∧ after = overlaid group [(name, value)] := by
  have hset : setters.setOne (name, value) group = setText update value group := by
    rw [setOne, hfind]
    rfl
  rw [hset]
  cases value with
  | text text =>
    rw [hoverlaid]
    exact ⟨fun h => ⟨⟨hname, text, rfl⟩, (Option.some.inj h).symm⟩, fun h => congrArg some h.2.symm⟩
  | scalar | array | table =>
    exact iff_of_false (fun h => nomatch h) fun ⟨⟨_, _, h⟩, _⟩ => nomatch h

theorem Params.setOne_iff {params after : Params} :
    Params.setters.setOne entry params = some after ↔
      (entry.1 ∈ ["context", "method", "arguments", "handler"] ∧ ∃ text, entry.2 = .text text) ∧
        after = params.overlaid [entry] := by
  by_cases hname : entry.1 ∈ ["context", "method", "arguments", "handler"]
  · obtain ⟨name, value⟩ := entry
    have hmem := hname
    simp only [List.mem_cons, List.not_mem_nil, or_false] at hname
    rcases hname with rfl | rfl | rfl | rfl <;>
      exact Setters.setOne_text_iff rfl hmem fun _ => rfl
  · rw [Setters.setOne_of_not_mem hname]
    exact iff_of_false (Option.some_ne_none _).symm fun h => hname h.1.1

theorem Output.setOne_iff {output after : Output} :
    Output.setters.setOne entry output = some after ↔
      (entry.1 ∈ ["providers", "interceptor", "bindings"] ∧ ∃ text, entry.2 = .text text) ∧
        after = output.overlaid [entry] := by
  by_cases hname : entry.1 ∈ ["providers", "interceptor", "bindings"]
  · obtain ⟨name, value⟩ := entry
    have hmem := hname
    simp only [List.mem_cons, List.not_mem_nil, or_false] at hname
    rcases hname with rfl | rfl | rfl <;>
      exact Setters.setOne_text_iff rfl hmem fun _ => rfl
  · rw [Setters.setOne_of_not_mem hname]
    exact iff_of_false (Option.some_ne_none _).symm fun h => hname h.1.1

theorem Params.setAll_iff {params after : Params} :
    Params.setters.setAll entries params = some after ↔
      AreTexts ["context", "method", "arguments", "handler"] entries ∧
        after = params.overlaid entries :=
  Setters.setAll_iff (fun _ => rfl)
    (fun _ _ _ => by simp only [Params.overlaid, ← Toml.last?_getD_cons]) fun _ _ _ _ => setOne_iff

theorem Output.setAll_iff {output after : Output} :
    Output.setters.setAll entries output = some after ↔
      AreTexts ["providers", "interceptor", "bindings"] entries ∧ after = output.overlaid entries :=
  Setters.setAll_iff (fun _ => rfl)
    (fun _ _ _ => by simp only [Output.overlaid, ← Toml.last?_getD_cons]) fun _ _ _ _ => setOne_iff

namespace Config

/-- An entry is a setting, and its value is of the type of that setting. -/
def Fits (entry : String × Toml.Value) : Prop :=
  (entry.1 ∈ ["runtime", "crate_root", "contract"] ∧ ∃ text, entry.2 = .text text) ∨
    (entry.1 = "params" ∧ ∃ inner, entry.2 = .table inner ∧
      AreTexts ["context", "method", "arguments", "handler"] inner) ∨
    (entry.1 = "output" ∧ ∃ inner, entry.2 = .table inner ∧
      AreTexts ["providers", "interceptor", "bindings"] inner)

/-- All that a document says is settings of their types. -/
def WellTyped (entries : List (String × Toml.Value)) : Prop :=
  ∀ entry ∈ entries, Fits entry

/-- Parameters and files are given as tables. -/
def IsTabled (entry : String × Toml.Value) : Prop :=
  entry.1 ∈ ["params", "output"] → ∃ inner, entry.2 = .table inner

instance (entry : String × Toml.Value) : Decidable (IsTabled entry) :=
  decidable_of_iff (entry.1 ∈ ["params", "output"] → (table? entry.2).isSome = true) <| by
    rw [IsTabled, Toml.Value.table?_isSome_iff]

theorem setOne_text_iff {name : String} {value : Toml.Value} {config after : Config}
    (hname : name ∈ ["runtime", "crate_root", "contract"]) :
    setters.setOne (name, value) config = some after ↔
      Fits (name, value) ∧ after = config.overlaid [(name, value)] := by
  have hfits : Fits (name, value) ↔
      name ∈ ["runtime", "crate_root", "contract"] ∧ ∃ text, value = .text text := by
    refine ⟨?_, .inl⟩
    rintro (htext | ⟨rfl, -⟩ | ⟨rfl, -⟩)
    · exact htext
    · exact absurd hname (by decide)
    · exact absurd hname (by decide)
  rw [hfits]
  have hmem := hname
  simp only [List.mem_cons, List.not_mem_nil, or_false] at hname
  rcases hname with rfl | rfl | rfl <;>
    exact Setters.setOne_text_iff rfl hmem fun _ => rfl

theorem setOne_params_iff {inner : List (String × Toml.Value)} {config after : Config} :
    setters.setOne ("params", .table inner) config = some after ↔
      Fits ("params", .table inner) ∧ after = config.overlaid [("params", .table inner)] := by
  have hset : setters.setOne ("params", .table inner) config =
      (Params.setters.setAll inner Params.default).bind
        fun params => some { config with params := params } := by
    simp [Setters.setOne, setters, Setters.setGroup]
  have hoverlaid : config.overlaid [("params", .table inner)] =
      { config with params := Params.default.overlaid inner } := by
    simp [overlaid, Toml.last?_singleton, Toml.under?, Params.of?, table?]
  have hfits : Fits ("params", .table inner) ↔
      AreTexts ["context", "method", "arguments", "handler"] inner := by
    simp [Fits]
  rw [hset, hoverlaid, hfits, Option.bind_eq_some_iff]
  constructor
  · rintro ⟨params, hparams, h⟩
    obtain ⟨htexts, rfl⟩ := Params.setAll_iff.1 hparams
    exact ⟨htexts, (Option.some.inj h).symm⟩
  · rintro ⟨htexts, rfl⟩
    exact ⟨_, Params.setAll_iff.2 ⟨htexts, rfl⟩, rfl⟩

theorem setOne_output_iff {inner : List (String × Toml.Value)} {config after : Config} :
    setters.setOne ("output", .table inner) config = some after ↔
      Fits ("output", .table inner) ∧ after = config.overlaid [("output", .table inner)] := by
  have hset : setters.setOne ("output", .table inner) config =
      (Output.setters.setAll inner Output.default).bind
        fun output => some { config with output := output } := by
    simp [Setters.setOne, setters, Setters.setGroup]
  have hoverlaid : config.overlaid [("output", .table inner)] =
      { config with output := Output.default.overlaid inner } := by
    simp [overlaid, Toml.last?_singleton, Toml.under?, Output.of?, table?]
  have hfits : Fits ("output", .table inner) ↔
      AreTexts ["providers", "interceptor", "bindings"] inner := by
    simp [Fits]
  rw [hset, hoverlaid, hfits, Option.bind_eq_some_iff]
  constructor
  · rintro ⟨output, houtput, h⟩
    obtain ⟨htexts, rfl⟩ := Output.setAll_iff.1 houtput
    exact ⟨htexts, (Option.some.inj h).symm⟩
  · rintro ⟨htexts, rfl⟩
    exact ⟨_, Output.setAll_iff.2 ⟨htexts, rfl⟩, rfl⟩

theorem setOne_iff (tabled : IsTabled entry) {config after : Config} :
    setters.setOne entry config = some after ↔ Fits entry ∧ after = config.overlaid [entry] := by
  obtain ⟨name, value⟩ := entry
  by_cases htext : name ∈ ["runtime", "crate_root", "contract"]
  · exact setOne_text_iff htext
  · by_cases hname : name ∈ ["params", "output"]
    · obtain ⟨inner, rfl⟩ : ∃ inner, value = .table inner := tabled hname
      rcases List.mem_pair.1 hname with rfl | rfl
      · exact setOne_params_iff
      · exact setOne_output_iff
    · have hnone : name ∉ setters.map (·.1) := by
        rw [show setters.map (·.1) =
          ["runtime", "crate_root", "contract"] ++ ["params", "output"] from rfl]
        exact fun hmem => (List.mem_append.1 hmem).elim htext hname
      rw [Setters.setOne_of_not_mem hnone]
      refine iff_of_false (Option.some_ne_none _).symm fun h => ?_
      rcases h.1 with ⟨hmem, -⟩ | ⟨rfl, -⟩ | ⟨rfl, -⟩
      · exact htext hmem
      · exact hname (by simp)
      · exact hname (by simp)

/-- What is said in a table is decoded exactly if it is well-typed, and it is put over the
defaults. -/
theorem ofEntries?_iff (tabled : ∀ entry ∈ entries, IsTabled entry) {config : Config} :
    ofEntries? entries = some config ↔ WellTyped entries ∧ config = default.overlaid entries := by
  refine Setters.setAll_iff (fun _ => rfl) (fun _ _ _ => ?_) fun entry hentry _ _ =>
    setOne_iff (tabled entry hentry)
  simp only [overlaid, ← Toml.last?_getD_cons]

/-! ## What is looked at afterwards -/

variable {config : Config} {text : String}

/-- The settings that have to be something, in the order in which they are looked at. -/
def settings (config : Config) : List (String × Expected × String) :=
  [("runtime", .path, config.runtime), ("crate_root", .path, config.crateRoot),
    ("contract", .identifier, config.contract), ("context", .type, config.params.context),
    ("method", .type, config.params.method), ("arguments", .type, config.params.arguments),
    ("handler", .type, config.params.handler)]

/-- The first of some settings that is not what it has to be. -/
def firstWrong? (settings : List (String × Expected × String)) :
    Option (String × Expected × String) :=
  settings.find? fun (_, expected, value) => !expected.admits value

theorem check_eq (config : Config) :
    config.check =
      match firstWrong? config.settings with
      | some (field, expected, value) => .error (.invalid field expected value)
      | none => .ok () := by
  have hall : ∀ settings : List (String × Expected × String),
      (settings.forM fun (field, expected, value) =>
        if expected.admits value then Except.ok ()
        else .error (ConfigError.invalid field expected value)) =
      match firstWrong? settings with
      | some (field, expected, value) => .error (.invalid field expected value)
      | none => .ok () := by
    intro settings
    induction settings with
    | nil => rfl
    | cons setting rest ih =>
      obtain ⟨field, expected, value⟩ := setting
      change ((if expected.admits value then Except.ok () else _).bind fun _ => rest.forM _) = _
      cases hadmits : expected.admits value with
      | true =>
        rw [firstWrong?, List.find?_cons_of_neg (by simp [hadmits])]
        exact ih
      | false =>
        rw [firstWrong?, List.find?_cons_of_pos (by simp [hadmits])]
        rfl
  exact hall config.settings

/-- The settings that parse are those whose every setting is what it has to be. -/
theorem firstWrong?_eq_none_iff :
    firstWrong? config.settings = none ↔
      (Source.readPath config.runtime).isOk = true ∧
      (Source.readPath config.crateRoot).isOk = true ∧
      (Source.readIdent config.contract).isOk = true ∧
      ∀ parameter ∈ config.params.named, (Source.readType parameter.2).isOk = true := by
  simp [firstWrong?, settings, Expected.admits, Params.named]

theorem ofText_eq (document : Toml.read? text = some entries)
    (tabled : ∀ entry ∈ entries, IsTabled entry) :
    (WellTyped entries ∧ ofText text =
      match firstWrong? (default.overlaid entries).settings with
      | some (field, expected, value) => .error (.invalid field expected value)
      | none => .ok (default.overlaid entries)) ∨
    ¬WellTyped entries ∧ ofText text = .error .malformed := by
  rw [ofText, document]
  dsimp only
  cases hdecoded : ofEntries? entries with
  | none =>
    refine .inr ⟨fun typed => ?_, rfl⟩
    rw [(ofEntries?_iff tabled).2 ⟨typed, rfl⟩] at hdecoded
    cases hdecoded
  | some config =>
    obtain ⟨typed, rfl⟩ := (ofEntries?_iff tabled).1 hdecoded
    refine .inl ⟨typed, ?_⟩
    dsimp only
    rw [check_eq]
    cases firstWrong? (default.overlaid entries).settings <;> rfl

/-- A document that is a table, with parameters and files as tables, is decoded into the defaults
with what it says put over them, exactly if all that it says is settings of their types and all
settings are what they have to be. Otherwise it is refused: as malformed if it says something else,
and for the first setting that is wrong if not. For a configuration that is decoded there is a
generator. -/
theorem ofText_overlay (document : Toml.read? text = some entries)
    (tabled : ∀ entry ∈ entries, IsTabled entry) :
    (∀ config, ofText text = .ok config ↔
      WellTyped entries ∧ config = default.overlaid entries ∧
        (Source.readPath config.runtime).isOk = true ∧
        (Source.readPath config.crateRoot).isOk = true ∧
        (Source.readIdent config.contract).isOk = true ∧
        ∀ parameter ∈ config.params.named, (Source.readType parameter.2).isOk = true) ∧
    (ofText text = .error .malformed ↔ ¬WellTyped entries) ∧
    (∀ field expected value, ofText text = .error (.invalid field expected value) ↔
      WellTyped entries ∧
        firstWrong? (default.overlaid entries).settings = some (field, expected, value)) ∧
    ∀ config, ofText text = .ok config →
      ∃ generator, Generator.ofConfig config = .ok generator ∧ generator.config = config := by
  refine ⟨fun config => ?_, ?_, fun field expected value => ?_,
    fun config h => Generator.exists_ofConfig (check_of_ofText h)⟩
  · rw [← firstWrong?_eq_none_iff]
    rcases ofText_eq document tabled with ⟨typed, h⟩ | ⟨typed, h⟩
    · rw [h]
      cases hwrong : firstWrong? (default.overlaid entries).settings with
      | none =>
        constructor
        · intro hconfig
          obtain rfl := Except.ok.inj hconfig
          exact ⟨typed, rfl, hwrong⟩
        · rintro ⟨-, rfl, -⟩
          rfl
      | some wrong =>
        refine iff_of_false (fun hconfig => nomatch hconfig) ?_
        rintro ⟨-, rfl, hnone⟩
        cases hwrong.symm.trans hnone
    · rw [h]
      exact iff_of_false (fun hconfig => nomatch hconfig) fun hconfig => typed hconfig.1
  · rcases ofText_eq document tabled with ⟨typed, h⟩ | ⟨typed, h⟩
    · rw [h]
      cases firstWrong? (default.overlaid entries).settings <;>
        exact iff_of_false (fun hmalformed => nomatch hmalformed) fun hnot => hnot typed
    · exact iff_of_true h typed
  · rcases ofText_eq document tabled with ⟨typed, h⟩ | ⟨typed, h⟩
    · rw [h]
      cases firstWrong? (default.overlaid entries).settings with
      | none => simp
      | some wrong => 
        obtain ⟨_, _, _⟩ := wrong
        simp [typed]
    · rw [h]
      exact iff_of_false (fun hinvalid => nomatch hinvalid) fun hinvalid => typed hinvalid.1

/-- A document that sets a name and the type of a parameter. -/
def sampleDocument : String :=
  "contract = \"Handler\"\n[params]\nmethod = \"String\"\n"

theorem sampleDocument_decoded : ∃ entries, Toml.read? sampleDocument = some entries ∧
    (∀ entry ∈ entries, IsTabled entry) ∧ WellTyped entries ∧
    default.overlaid entries = { default with
      contract := "Handler", params := { Params.default with method := "String" } } ∧
    ∃ generator, Generator.ofConfig (default.overlaid entries) = .ok generator := by
  have htabled : (Toml.read? sampleDocument).any
      (fun entries => entries.all fun entry => decide (IsTabled entry)) = true := by
    decide +kernel
  have hdecoded : (ofText sampleDocument).toOption = some { default with
      contract := "Handler", params := { Params.default with method := "String" } } := by
    decide +kernel
  cases hread : Toml.read? sampleDocument with
  | none =>
    rw [hread] at htabled
    cases htabled
  | some entries =>
    have tabled : ∀ entry ∈ entries, IsTabled entry := by
      simpa [hread] using htabled
    obtain ⟨hok, -, -, hgenerator⟩ := ofText_overlay hread tabled
    cases hconfig : ofText sampleDocument with
    | error =>
      rw [hconfig] at hdecoded
      cases hdecoded
    | ok config =>
      rw [hconfig] at hdecoded
      obtain ⟨typed, rfl, -⟩ := (hok config).1 hconfig
      obtain ⟨generator, hgenerator, -⟩ := hgenerator _ hconfig
      exact ⟨entries, rfl, tabled, typed, Option.some.inj hdecoded, generator, hgenerator⟩

end Config

end Bindery
