import Bindery.CommandLine
import Bindery.Package
import Bindery.Proofs.Files.Parents
import Bindery.Proofs.Round.Survival
/-!
# Commands and builds

A command on the sources of a package does what a build of the package does, although it looks for
the configuration beside the sources and not in the package (`Package.commands_agree`). Only the
words about a configuration file that cannot be read may differ (`Package.dotted_unreadable`).
-/

namespace Bindery

variable {tree : FileTree} {source output path : String}

/-! ## The configuration -/

/-- A failure in which a configuration file that cannot be read goes by another path. -/
def ConfigError.under (path : String) : ConfigError → ConfigError
  | unreadable _ cause => unreadable path cause
  | malformed => malformed
  | invalid field expected value => invalid field expected value

/-- A failure of a round in which a configuration file that cannot be read goes by another path. -/
def RoundError.under (path : String) : RoundError → RoundError
  | config error => config (error.under path)
  | survey error => survey error
  | aborted causes => aborted causes
  | unwritable place cause => unwritable place cause
  | environment name => environment name

namespace Config

/-- A failure to make settings of a text is not about a path. -/
theorem under_of_ofText {text : String} {error : ConfigError} (h : ofText text = .error error) :
    error.under path = error := by
  unfold ofText at h
  split at h
  · obtain rfl := Except.error.inj h
    rfl
  · split at h
    · obtain rfl := Except.error.inj h
      rfl
    · next config _ =>
      cases hcheck : config.check with
      | ok =>
        rw [hcheck] at h
        cases h
      | error cause =>
        rw [hcheck] at h
        obtain rfl : cause = error := Except.error.inj h
        obtain ⟨⟨field, expected, value⟩, -, hinvalid⟩ := forM_error hcheck
        dsimp only at hinvalid
        split at hinvalid
        · cases hinvalid
        · obtain rfl := Except.error.inj hinvalid
          rfl

/-- Two paths that lead to the same lead to the same settings. -/
theorem ofFileOrDefault_congr {other : String} (hfile : tree.isFile path = tree.isFile other)
    (hread : tree.read path = tree.read other) :
    ofFileOrDefault tree path = (ofFileOrDefault tree other).mapError (.under path) := by
  unfold ofFileOrDefault ofFile
  rw [hfile, hread]
  split
  · cases tree.read other with
    | error cause => rfl
    | ok text =>
      change ofText text = (ofText text).mapError (.under path)
      cases htext : ofText text with
      | ok config => rfl
      | error error => exact congrArg Except.error (under_of_ofText htext).symm
  · rfl

/-- What is read is accepted, and so are the defaults. -/
theorem check_of_ofFileOrDefault {config : Config} (h : ofFileOrDefault tree path = .ok config) :
    config.check = .ok () := by
  unfold ofFileOrDefault ofFile at h
  split at h
  · cases hread : tree.read path with
    | error cause =>
      rw [hread] at h
      cases h
    | ok text =>
      rw [hread] at h
      exact check_of_ofText h
  · obtain rfl := Except.ok.inj h
    have haccepted : default.check.isOk = true := by decide +kernel
    cases hcheck : default.check with
    | error error =>
      rw [hcheck] at haccepted
      cases haccepted
    | ok => rfl

end Config

/-- The generator of the settings in a file, or of the defaults. -/
def Generator.ofFileOrDefault (tree : FileTree) (path : String) : Except ConfigError Generator :=
  Config.ofFileOrDefault tree path >>= ofConfig

theorem Generator.ofFileOrDefault_congr {other : String}
    (hfile : tree.isFile path = tree.isFile other) (hread : tree.read path = tree.read other) :
    ofFileOrDefault tree path = (ofFileOrDefault tree other).mapError (.under path) := by
  unfold ofFileOrDefault
  rw [Config.ofFileOrDefault_congr hfile hread]
  cases hconfig : Config.ofFileOrDefault tree other with
  | error error => rfl
  | ok config =>
    obtain ⟨generator, hgenerator, -⟩ :=
      exists_ofConfig (Config.check_of_ofFileOrDefault hconfig)
    change ofConfig config = (ofConfig config).mapError (.under path)
    rw [hgenerator]
    rfl

/-! ## What a command does -/

/-- What a command to write says about a round. -/
def Outcome.ofRound (output : String) (report : Report) :
    Except RoundError (List Artifact) → Outcome
  | .ok artifacts =>
    ⟨0, artifacts.map fun artifact => FilePath.join output artifact.name, report.texts⟩
  | .error error => (Failure.ofRound error).outcome report

namespace Command

/-- The path of the configuration file of a command that names none. -/
def defaultPath (source : String) : String :=
  FilePath.beside source Config.fileName

theorem generator_none : generator tree source none =
    (Generator.ofFileOrDefault tree (defaultPath source)).mapError .ofConfig := by
  unfold generator config Generator.ofFileOrDefault
  change ((Config.ofFileOrDefault tree (defaultPath source)).mapError _ >>= _) = _
  cases Config.ofFileOrDefault tree (defaultPath source) <;> rfl

theorem runGenerate_of_error {error : ConfigError}
    (h : Generator.ofFileOrDefault tree (defaultPath source) = .error error) :
    runGenerate tree source output none = (tree, (Failure.ofConfig error).outcome .empty) := by
  unfold runGenerate
  rw [generator_none, h]
  rfl

theorem runGenerate_of_ok {generator : Generator}
    (h : Generator.ofFileOrDefault tree (defaultPath source) = .ok generator) :
    runGenerate tree source output none =
      ((generator.run tree source (.directory output) tree .empty).1,
        Outcome.ofRound output (generator.run tree source (.directory output) tree .empty).2.1
          (generator.run tree source (.directory output) tree .empty).2.2) := by
  unfold runGenerate
  rw [generator_none, h]
  dsimp only [Except.mapError]
  rcases generator.run tree source (.directory output) tree .empty with
    ⟨after, report, error | artifacts⟩ <;> rfl

/-- Where the list of what would be bound fails, writing fails in the same way, and nothing is
written. -/
theorem runGenerate_of_fails {path : Option String} (h : (runScan tree source path).exitCode ≠ 0) :
    runGenerate tree source output path = (tree, runScan tree source path) := by
  revert h
  unfold runScan runGenerate
  cases generator tree source path with
  | error failure => exact fun _ => rfl
  | ok generator =>
    dsimp only
    unfold Generator.run
    cases Manifest.ofTree tree source generator.config.crateRoot with
    | error error => exact fun _ => rfl
    | ok manifest =>
      dsimp only
      unfold Generator.generate
      rcases generator.accept manifest .empty with ⟨report, error | accepted⟩
      · exact fun _ => rfl
      · exact fun h => absurd rfl h

end Command

/-! ## What arguments ask for -/

namespace Request

theorem ofWord?_of_no_dash {word : String} (h : ¬['-'] <+: word.toList) (flags : List Flag)
    (next : Option String) : Argument.ofWord? flags next word = none := by
  unfold Argument.ofWord?
  split
  · next rest hword => exact absurd ⟨'-' :: rest, hword.symm⟩ h
  · next letter rest _ hword => exact absurd ⟨letter :: rest, hword.symm⟩ h
  · rfl

theorem value?_of_no_dash {word : String} (h : ¬['-'] <+: word.toList) (rest : List String) :
    Argument.value? (word :: rest) = some word := by
  unfold Argument.value?
  dsimp only
  split
  · next letter more hword => exact absurd ⟨letter :: more, hword.symm⟩ h
  · rfl

theorem ne_dashes_of_no_dash {word : String} (h : ¬['-'] <+: word.toList) : word ≠ "--" := by
  rintro rfl
  exact h (by decide)

theorem settle_of_take {words : List String} {flags : List Flag} {arguments : List Argument}
    {given : Given} {command : Command} {command? : Given → Option Command}
    (hwords : Argument.ofWords flags words = arguments)
    (hgiven : arguments.foldlM Given.take Given.nothing = .ok given)
    (hcommand : command? given = some command) :
    settle words flags command? = .command command := by
  unfold settle
  rw [hwords, hgiven]
  dsimp only
  rw [hcommand]

variable (hsource : ¬['-'] <+: source.toList) (hnonempty : source.isEmpty = false)
include hsource hnonempty

theorem ofArguments_scan :
    ofArguments ["scan", source] = .command (.scan source none) := by
  have hwords : Argument.ofWords [.verbose, .help, .config] [source] = [.positional source] := by
    rw [Argument.ofWords, if_neg (ne_dashes_of_no_dash hsource), ofWord?_of_no_dash hsource]
    rfl
  have hgiven : [Argument.positional source].foldlM Given.take Given.nothing =
      .ok ⟨[], [], [source]⟩ := by
    simp [Given.take, hnonempty, Given.nothing]
  exact settle_of_take hwords hgiven rfl

theorem ofArguments_generate (houtput : ¬['-'] <+: output.toList)
    (hpresent : output.isEmpty = false) :
    ofArguments ["generate", source, "--out", output] =
      .command (.generate source output none) := by
  have hout : Argument.ofWords [.verbose, .help, .config, .out] ["--out", output] =
      [.option .out output] := by
    rw [Argument.ofWords, value?_of_no_dash houtput]
    rfl
  have hwords : Argument.ofWords [.verbose, .help, .config, .out] [source, "--out", output] =
      [.positional source, .option .out output] := by
    rw [Argument.ofWords, if_neg (ne_dashes_of_no_dash hsource), ofWord?_of_no_dash hsource, hout]
  have hfirst : Given.nothing.take (.positional source) = .ok ⟨[], [], [source]⟩ := by
    simp [Given.take, hnonempty, Given.nothing]
  have hsecond : Given.take ⟨[], [], [source]⟩ (.option .out output) =
      .ok ⟨[], [(.out, output)], [source]⟩ := by
    simp [Given.take, hpresent, Given.option?]
  have hgiven : [Argument.positional source, .option .out output].foldlM Given.take
      Given.nothing = .ok ⟨[], [(.out, output)], [source]⟩ := by
    rw [List.foldlM_cons, hfirst]
    change (Given.take ⟨[], [], [source]⟩ (.option .out output)).bind _ = _
    rw [hsecond]
    rfl
  exact settle_of_take hwords hgiven rfl

end Request

/-! ## Packages -/

namespace Package

open Command (defaultPath)

variable (package : Package)

theorem isPlain_source : FileTree.IsPlain "src" := by
  decide

theorem isPlain_config : FileTree.IsPlain Config.fileName := by
  decide

/-- A command finds the configuration of a package, be it by another path. -/
theorem ofFileOrDefault_defaultPath (tree : FileTree) :
    Generator.ofFileOrDefault tree (defaultPath package.sourceRoot) =
      (Generator.ofFileOrDefault tree package.configPath).mapError
        (.under (defaultPath package.sourceRoot)) :=
  Generator.ofFileOrDefault_congr (FileTree.isFile_beside isPlain_source isPlain_config)
    (FileTree.read_beside isPlain_source isPlain_config)

theorem generate_eq (tree : FileTree) (report : Report) :
    package.generate tree report =
      match Generator.ofFileOrDefault tree package.configPath with
      | .error error => (tree, report, .error (.config error))
      | .ok generator =>
        generator.run tree package.sourceRoot (.directory package.output) tree report :=
  rfl

/-- No failure of a round is about the configuration. -/
theorem under_of_run {generator : Generator} {root directory : String} {after : FileTree}
    {report report' : Report} {error : RoundError}
    (h : generator.run tree root (.directory directory) tree report =
      (after, report', .error error)) : error.under path = error := by
  have hends := generator.run_ends (Destination.writesInto_directory directory) tree root tree
    report
  rw [h] at hends
  cases hends <;> rfl

/-- What a command to write does, by what a build of the package does. -/
theorem run_generate (tree : FileTree) :
    Command.run (.generate package.sourceRoot package.output none) tree =
      ((package.generate tree .empty).1,
        Outcome.ofRound package.output (package.generate tree .empty).2.1
          ((package.generate tree .empty).2.2.mapError
            (.under (defaultPath package.sourceRoot)))) := by
  have hsame := package.ofFileOrDefault_defaultPath tree
  change Command.runGenerate tree package.sourceRoot package.output none = _
  rw [generate_eq]
  cases hgenerator : Generator.ofFileOrDefault tree package.configPath with
  | error error =>
    rw [hgenerator] at hsame
    rw [Command.runGenerate_of_error hsame]
    rfl
  | ok generator =>
    rw [hgenerator] at hsame
    rw [Command.runGenerate_of_ok hsame]
    dsimp only
    rcases hrun : generator.run tree package.sourceRoot (.directory package.output) tree .empty
      with ⟨after, report, error | artifacts⟩
    · rw [Except.mapError, under_of_run hrun]
    · rfl

/-- What a command to write does where both find the configuration by the same path. -/
theorem run_generate_of_same (tree : FileTree)
    (h : defaultPath package.sourceRoot = package.configPath) :
    Command.run (.generate package.sourceRoot package.output none) tree =
      ((package.generate tree .empty).1,
        Outcome.ofRound package.output (package.generate tree .empty).2.1
          (package.generate tree .empty).2.2) := by
  change Command.runGenerate tree package.sourceRoot package.output none = _
  rw [generate_eq]
  cases hgenerator : Generator.ofFileOrDefault tree package.configPath with
  | error error =>
    rw [← h] at hgenerator
    rw [Command.runGenerate_of_error hgenerator]
    rfl
  | ok generator =>
    rw [← h] at hgenerator
    rw [Command.runGenerate_of_ok hgenerator]

/-- Lines are those for the statements that a successful build writes: one for each declaration that
was discovered and satisfies the rules, in the order of discovery. -/
def Lists (package : Package) (tree : FileTree) (artifacts : List Artifact)
    (lines : List String) : Prop :=
  ∃ generator manifest providers gateways defining intercepting,
    Generator.ofFileOrDefault tree package.configPath = .ok generator ∧
    Manifest.ofTree tree package.sourceRoot generator.config.crateRoot = .ok manifest ∧
    (manifest.discover .provider .empty).2 = .ok providers ∧
    (manifest.discover .gateway .empty).2 = .ok gateways ∧
    generator.target.emit defining intercepting = .ok artifacts ∧
    List.Forall₂ (manifest.Writes generator.runtime)
      (providers.filter (generator.rules.Satisfies ·)) defining ∧
    List.Forall₂ (manifest.Writes generator.runtime)
      (gateways.filter (generator.rules.Satisfies ·)) intercepting ∧
    lines = (providers.filter (generator.rules.Satisfies ·) ++
      gateways.filter (generator.rules.Satisfies ·)).map Declaration.text

theorem lists_of_generate {after : FileTree} {report : Report} {artifacts : List Artifact}
    (h : package.generate tree .empty = (after, report, .ok artifacts)) :
    ∃ lines, Command.run (.scan package.sourceRoot none) tree = (tree, ⟨0, lines, report.texts⟩) ∧
      package.Lists tree artifacts lines := by
  have hsame := package.ofFileOrDefault_defaultPath tree
  rw [generate_eq] at h
  cases hgenerator : Generator.ofFileOrDefault tree package.configPath with
  | error error =>
    rw [hgenerator] at h
    cases h
  | ok generator =>
    rw [hgenerator] at h hsame
    obtain ⟨manifest, hmanifest, hgenerate, -⟩ := Generator.run_ok h
    obtain ⟨accepted, defining, intercepting, haccept, hemit, hdefining, hintercepting⟩ :=
      Generator.generate_writes hgenerate
    obtain ⟨providers, gateways, -, hproviders, hgateways, -, haccepted, hgateway, -⟩ :=
      Generator.accept_ok haccept
    rw [haccepted] at hdefining
    rw [hgateway] at hintercepting
    refine ⟨_, ?_, generator, manifest, providers, gateways, defining, intercepting, hgenerator,
      hmanifest, hproviders, hgateways, hemit, hdefining, hintercepting, rfl⟩
    rw [← haccepted, ← hgateway]
    change (tree, Command.runScan tree package.sourceRoot none) = _
    unfold Command.runScan
    rw [Command.generator_none, hsame]
    dsimp only [Except.mapError]
    rw [hmanifest]
    dsimp only
    rw [haccept]

/-- The commands on the sources of a package against the build of it. -/
structure CommandsAgree (package : Package) (tree : FileTree) : Prop where
  /-- Writing does what the build does, with the same findings. Where the build fails because of a
  configuration file that cannot be read, the command speaks of that file by a path of its own. -/
  generates : Command.run (.generate package.sourceRoot package.output none) tree =
    ((package.generate tree .empty).1,
      Outcome.ofRound package.output (package.generate tree .empty).2.1
        ((package.generate tree .empty).2.2.mapError (.under (defaultPath package.sourceRoot))))
  /-- If the path of the package ends plainly, that is the path that the build uses as well. -/
  generates_plainly : FilePath.EndsPlainly package.directory →
    Command.run (.generate package.sourceRoot package.output none) tree =
      ((package.generate tree .empty).1,
        Outcome.ofRound package.output (package.generate tree .empty).2.1
          (package.generate tree .empty).2.2)
  /-- Listing prints what a build that succeeds writes. -/
  lists : ∀ after report artifacts, package.generate tree .empty = (after, report, .ok artifacts) →
    ∃ lines, Command.run (.scan package.sourceRoot none) tree =
      (tree, ⟨0, lines, report.texts⟩) ∧ package.Lists tree artifacts lines
  /-- Where listing fails, writing fails with the same words and changes nothing, and so does the
  build. -/
  fails : ∀ outcome, Command.run (.scan package.sourceRoot none) tree = (tree, outcome) →
    outcome.exitCode ≠ 0 →
    Command.run (.generate package.sourceRoot package.output none) tree = (tree, outcome) ∧
      (package.generate tree .empty).1 = tree ∧
      ∃ error, (package.generate tree .empty).2.2 = .error error
  /-- The arguments that ask for these commands. -/
  arguments : ¬['-'] <+: package.directory.toList → ¬['-'] <+: package.output.toList →
    package.output ≠ "" →
    Request.ofArguments ["scan", package.sourceRoot] = .command (.scan package.sourceRoot none) ∧
      Request.ofArguments ["generate", package.sourceRoot, "--out", package.output] =
        .command (.generate package.sourceRoot package.output none)

theorem fails_of_scan {outcome : Outcome}
    (h : Command.run (.scan package.sourceRoot none) tree = (tree, outcome))
    (hfails : outcome.exitCode ≠ 0) :
    Command.run (.generate package.sourceRoot package.output none) tree = (tree, outcome) ∧
      (package.generate tree .empty).1 = tree ∧
      ∃ error, (package.generate tree .empty).2.2 = .error error := by
  obtain rfl : Command.runScan tree package.sourceRoot none = outcome := (Prod.mk.inj h).2
  have hwrite : Command.runGenerate tree package.sourceRoot package.output none =
      (tree, Command.runScan tree package.sourceRoot none) :=
    Command.runGenerate_of_fails hfails
  obtain ⟨htree, houtcome⟩ := Prod.mk.inj ((package.run_generate tree).symm.trans hwrite)
  refine ⟨hwrite, htree, ?_⟩
  cases hbuild : (package.generate tree .empty).2.2 with
  | error error => exact ⟨error, rfl⟩
  | ok artifacts =>
    rw [← houtcome, hbuild] at hfails
    exact absurd rfl hfails

/-- The source root begins with the path of the package. -/
theorem directory_prefix_sourceRoot :
    package.directory.toList <+: package.sourceRoot.toList := by
  unfold sourceRoot FilePath.join
  rw [show FilePath.isAbsolute "src" = false from rfl, Bool.false_or]
  split
  · next hempty =>
    rw [String.isEmpty_iff.1 hempty]
    exact List.nil_prefix
  · split
    · exact ⟨_, String.toList_append.symm⟩
    · rw [String.append_assoc]
      exact ⟨_, String.toList_append.symm⟩

theorem sourceRoot_of_empty (h : package.directory = "") : package.sourceRoot = "src" := by
  unfold sourceRoot
  rw [h, FileTree.join_empty]

theorem sourceRoot_ne_empty : package.sourceRoot ≠ "" := by
  intro hempty
  have hprefix := package.directory_prefix_sourceRoot
  rw [hempty] at hprefix
  have hdirectory := String.toList_eq_nil_iff.1 (List.prefix_nil.1 hprefix)
  rw [package.sourceRoot_of_empty hdirectory] at hempty
  exact absurd hempty (by decide)

theorem sourceRoot_no_dash (h : ¬['-'] <+: package.directory.toList) :
    ¬['-'] <+: package.sourceRoot.toList := by
  by_cases hempty : package.directory = ""
  · rw [package.sourceRoot_of_empty hempty]
    decide
  · have hlength : ['-'].length ≤ package.directory.toList.length :=
      List.length_pos_iff.2 (mt String.toList_eq_nil_iff.1 hempty)
    exact fun hdash => h
      (List.prefix_of_prefix_length_le hdash package.directory_prefix_sourceRoot hlength)

theorem commands_agree (package : Package) (tree : FileTree) : package.CommandsAgree tree where
  generates := package.run_generate tree
  generates_plainly h :=
    package.run_generate_of_same tree (FilePath.beside_join isPlain_source isPlain_config h)
  lists _ _ _ h := package.lists_of_generate h
  fails _ h hfails := package.fails_of_scan h hfails
  arguments hdirectory houtput hpresent := by
    have hsource := package.sourceRoot_no_dash hdirectory
    have hnonempty : package.sourceRoot.isEmpty = false :=
      Bool.eq_false_iff.2 (mt String.isEmpty_iff.1 package.sourceRoot_ne_empty)
    have hoption : package.output.isEmpty = false :=
      Bool.eq_false_iff.2 (mt String.isEmpty_iff.1 hpresent)
    exact ⟨Request.ofArguments_scan hsource hnonempty,
      Request.ofArguments_generate hsource hnonempty houtput hoption⟩

/-- A package with one provider. -/
def sample : Package :=
  ⟨"pkg", "out"⟩

/-- The files of the sample package, without settings. -/
def sampleTree : FileTree where
  nodes := [(["pkg"], .directory), (["pkg", "src"], .directory),
    (["pkg", "src", "lib.rs"],
      .file "#[provider(\"ping\")]pub struct Ping;impl Delegate for Ping\x7b\x7d".toUTF8)]
  written := []

/-- What listing prints for the sample package. -/
def sampleLine : String :=
  "#[provider(\"ping\")] type `crate::Ping` (pkg/src/lib.rs:1)"

/-- The build of the sample package succeeds, and listing prints its provider. -/
theorem sample_agrees : ∃ after report artifacts,
    sample.generate sampleTree .empty = (after, report, .ok artifacts) ∧
      sample.Lists sampleTree artifacts [sampleLine] ∧
      Command.run (.generate "pkg/src" "out" none) sampleTree =
        (after, Outcome.ofRound "out" report (.ok artifacts)) := by
  have agree := commands_agree sample sampleTree
  have hsucceeds : (sample.generate sampleTree .empty).2.2.isOk = true := by decide +kernel
  have hscan : (Command.run (.scan sample.sourceRoot none) sampleTree).2.output = [sampleLine] := by
    decide +kernel
  have hgenerates := agree.generates_plainly (by decide)
  rcases hbuild : sample.generate sampleTree .empty with ⟨after, report, error | artifacts⟩ <;>
    rw [hbuild] at hsucceeds hgenerates
  · cases hsucceeds
  · obtain ⟨lines, hlines, hlists⟩ := agree.lists after report artifacts hbuild
    rw [hlines] at hscan
    obtain rfl : lines = [sampleLine] := hscan
    exact ⟨after, report, artifacts, rfl, hlists, hgenerates⟩

/-- A package whose path ends in a part that does not count. -/
def dotted : Package :=
  ⟨"pkg/.", "out"⟩

/-- The files of a package whose configuration file is no text. -/
def unreadableTree : FileTree where
  nodes := [(["pkg"], .directory), (["pkg", "Tether.toml"], .file ⟨#[255]⟩),
    (["pkg", "src"], .directory), (["pkg", "src", "lib.rs"], .file "".toUTF8)]
  written := []

/-- The command and the build speak of the configuration file by different paths. -/
theorem dotted_unreadable :
    ¬['/'] <:+ dotted.directory.toList ∧
      (Command.run (.generate dotted.sourceRoot dotted.output none) unreadableTree).2.errors.head? =
        some "Error: failed to read pkg/Tether.toml: stream did not contain valid UTF-8" ∧
      (Outcome.ofRound dotted.output (dotted.generate unreadableTree .empty).2.1
        (dotted.generate unreadableTree .empty).2.2).errors.head? =
          some "Error: failed to read pkg/./Tether.toml: stream did not contain valid UTF-8" := by
  decide +kernel

end Package

end Bindery
