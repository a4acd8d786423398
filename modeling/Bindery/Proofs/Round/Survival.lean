import Bindery.Proofs.Round.History
import Bindery.Proofs.Round.Settings
/-!
# Which artifacts survive a round

The names of the generated files are the one group of settings that is not checked. All artifacts
of a round that succeeds are found under their names exactly if no two of them have been written to
the same place (`survives_memory_iff`, `read_all_iff`); if so, the units that the index includes are
the right ones.
-/

namespace Bindery

variable {generator : Generator} {target : Target}

/-! ## Different texts -/

/-- The artifacts of a round have different texts. -/
theorem Target.contents_pairwise {providers interceptor : Option Artifact}
    (defining : ∀ unit ∈ providers, target.MakesUnit .provider unit)
    (intercepting : ∀ unit ∈ interceptor, target.MakesUnit .gateway unit) :
    (providers.toList ++ interceptor.toList ++ [target.index providers interceptor]).Pairwise
      fun first second => first.contents ≠ second.contents := by
  have hdefines : ((providers.toList ++ interceptor.toList ++
      [target.index providers interceptor]).map
        fun artifact => definedIn? artifact.contents).Nodup := by
    rw [List.map_append, List.map_singleton, definedIn?_index]
    cases providers with
    | none =>
      cases interceptor with
      | none => simp
      | some gateway => simp [(intercepting _ rfl).contents.definedIn?]
    | some provider =>
      cases interceptor with
      | none => simp [(defining _ rfl).contents.definedIn?]
      | some gateway =>
        simp [(defining _ rfl).contents.definedIn?, (intercepting _ rfl).contents.definedIn?,
          Role.entryPoint]
  exact (List.pairwise_map.1 hdefines).imp fun hne heq => hne (congrArg definedIn? heq)

/-! ## What is found afterwards -/

/-- Every artifact is found under its name, and the files that the index includes are the units of
their roles. -/
structure Target.Survives (target : Target) (artifacts : List Artifact)
    (read : String → Option String) : Prop where
  found : ∀ artifact ∈ artifacts, read artifact.name = some artifact.contents
  backed : ∃ text index, read target.output.bindings = some text ∧
    Index.ofText? text = some index ∧ target.Backs read index

namespace Generator

theorem survives_of_found {manifest : Manifest} {report report' : Report}
    {artifacts : List Artifact} {read : String → Option String}
    (h : generator.generate manifest report = (report', .ok artifacts))
    (found : ∀ artifact ∈ artifacts, read artifact.name = some artifact.contents) :
    generator.target.Survives artifacts read := by
  obtain ⟨providers, interceptor, rfl, defining, intercepting⟩ := artifacts_of_generate h
  obtain ⟨index, hindex, hbacks⟩ := Target.backs_index defining intercepting
    fun unit hunit => found unit (List.mem_append_left _ hunit)
  exact ⟨found, _, index, found (generator.target.index providers interceptor) (by simp), hindex,
    hbacks⟩

theorem contents_pairwise {manifest : Manifest} {report report' : Report}
    {artifacts : List Artifact}
    (h : generator.generate manifest report = (report', .ok artifacts)) :
    artifacts.Pairwise fun first second => first.contents ≠ second.contents := by
  obtain ⟨providers, interceptor, rfl, defining, intercepting⟩ := artifacts_of_generate h
  exact Target.contents_pairwise defining intercepting

/-- A round that succeeds has surveyed the sources, generated artifacts and written all of them. -/
theorem run_ok {State : Type} {destination : Destination State} {sources : FileTree} {root : String}
    {state after : State} {report report' : Report} {artifacts : List Artifact}
    (h : generator.run sources root destination state report = (after, report', .ok artifacts)) :
    ∃ manifest, Manifest.ofTree sources root generator.config.crateRoot = .ok manifest ∧
      generator.generate manifest report = (report', .ok artifacts) ∧
      destination.writeAll artifacts state = (after, .ok ()) := by
  unfold run at h
  split at h
  · cases h
  · next manifest hmanifest =>
    split at h
    · cases h
    · next report'' generated hgenerate =>
      rcases hwrite : destination.writeAll generated state with ⟨written, error | ok⟩ <;>
        rw [hwrite] at h
      · cases h
      · cases h
        exact ⟨manifest, hmanifest, hgenerate, hwrite⟩

variable {sources : FileTree} {root path : String} {report report' : Report}
  {artifacts : List Artifact}

/-- In a keyed list, the artifacts survive exactly if their names are different. -/
theorem survives_memory_iff {files after : List (String × String)}
    (h : generator.run sources root Destination.memory files report =
      (after, report', .ok artifacts)) :
    generator.target.Survives artifacts (Keyed.find? after) ↔
      (artifacts.map Artifact.name).Nodup := by
  obtain ⟨manifest, -, hgenerate, hwrite⟩ := run_ok h
  obtain ⟨after', hafter, hfind⟩ := Destination.find?_writeAll artifacts files
  obtain ⟨rfl, -⟩ := Prod.mk.inj (hwrite.symm.trans hafter)
  have hfound : (∀ artifact ∈ artifacts, overlay Artifact.name Artifact.contents artifacts
      (Keyed.find? files) artifact.name = some artifact.contents) ↔ _ :=
    overlay_holds_iff (contents_pairwise hgenerate)
  rw [← hfind] at hfound
  exact ⟨fun survives => hfound.1 survives.found,
    fun distinct => survives_of_found hgenerate (hfound.2 distinct)⟩

variable {tree after : FileTree}

/-- In a directory, the artifacts survive exactly if their names lead to different places. -/
theorem read_all_iff
    (h : generator.run sources root (Destination.directory path) tree report =
      (after, report', .ok artifacts)) :
    (∀ artifact ∈ artifacts,
      after.read (FilePath.join path artifact.name) = .ok artifact.contents) ↔
      (artifacts.map (Destination.placed path)).Nodup := by
  obtain ⟨manifest, -, hgenerate, hwrite⟩ := run_ok h
  have hfiles := (Destination.writesInto_directory path).file?_writeAll hwrite
  have hdifferent : artifacts.Pairwise fun first second =>
      Destination.encoded first ≠ Destination.encoded second :=
    (contents_pairwise hgenerate).imp fun hne heq => hne (String.toByteArray_inj.1 heq)
  have hheld : (∀ artifact ∈ artifacts, overlay (Destination.placed path) Destination.encoded
      artifacts tree.file? (Destination.placed path artifact) =
        some (Destination.encoded artifact)) ↔ _ := overlay_holds_iff hdifferent
  rw [← hheld, ← hfiles]
  refine forall₂_congr fun artifact hmem => ?_
  have hleads := (Destination.leads_writeAll hwrite).1 artifact hmem
  exact ⟨FileTree.file?_of_read, fun hfile => FileTree.read_ok_iff.2 ⟨hleads, hfile⟩⟩

/-- What lies in different places below the directory survives, with its index. -/
theorem survives_directory
    (h : generator.run sources root (Destination.directory path) tree report =
      (after, report', .ok artifacts))
    (distinct : (artifacts.map (Destination.placed path)).Nodup)
    (relative : ∀ artifact ∈ artifacts, FilePath.isAbsolute artifact.name = false) :
    generator.target.Survives artifacts
      fun name => (after.read (path ++ "/" ++ name)).toOption := by
  obtain ⟨manifest, -, hgenerate, -⟩ := run_ok h
  refine survives_of_found hgenerate fun artifact hmem => ?_
  have hread := (read_all_iff h).2 distinct artifact hmem
  exact congrArg Except.toOption (FileTree.read_slash (relative artifact hmem) hread)

/-- Settings that are accepted have a generator, and of the artifacts of a round of it that succeeds
all survive exactly if no two of them are written to the same place. -/
theorem run_survival {text : String} {config : Config} (h : Config.ofText text = .ok config) :
    ∃ generator, ofConfig config = .ok generator ∧ generator.config = config ∧
      (∀ sources root files report after report' artifacts,
        generator.run sources root Destination.memory files report =
          (after, report', .ok artifacts) →
        (generator.target.Survives artifacts (Keyed.find? after) ↔
          (artifacts.map Artifact.name).Nodup)) ∧
      ∀ sources root path tree report after report' artifacts,
        generator.run sources root (Destination.directory path) tree report =
          (after, report', .ok artifacts) →
        ((∀ artifact ∈ artifacts,
            after.read (FilePath.join path artifact.name) = .ok artifact.contents) ↔
          (artifacts.map (Destination.placed path)).Nodup) ∧
        ((artifacts.map (Destination.placed path)).Nodup →
          (∀ artifact ∈ artifacts, FilePath.isAbsolute artifact.name = false) →
          generator.target.Survives artifacts
            fun name => (after.read (path ++ "/" ++ name)).toOption) := by
  obtain ⟨generator, hgenerator, hconfig⟩ := exists_ofConfig (Config.check_of_ofText h)
  exact ⟨generator, hgenerator, hconfig, fun _ _ _ _ _ _ _ hrun => survives_memory_iff hrun,
    fun _ _ _ _ _ _ _ _ hrun => ⟨read_all_iff hrun, survives_directory hrun⟩⟩

/-- The names of the files that settings have the sample sources generate. -/
def sampleNames? (text : String) : Option (List String) := do
  let generator ← (ofConfig (← (Config.ofText text).toOption)).toOption
  let (_, _, outcome) := generator.run sampleSources "src" Destination.memory [] .empty
  return (← outcome.toOption).map Artifact.name

theorem exists_run_of_sampleNames? {text : String} {names : List String}
    (h : sampleNames? text = some names) :
    ∃ config generator after report artifacts, Config.ofText text = .ok config ∧
      ofConfig config = .ok generator ∧
      generator.run sampleSources "src" Destination.memory [] .empty =
        (after, report, .ok artifacts) ∧
      artifacts.map Artifact.name = names := by
  unfold sampleNames? at h
  rcases hconfig : Config.ofText text with error | config <;> rw [hconfig] at h
  · cases h
  · change ((ofConfig config).toOption.bind _) = _ at h
    rcases hgenerator : ofConfig config with error | generator <;> rw [hgenerator] at h
    · cases h
    · rcases hrun : generator.run sampleSources "src" Destination.memory [] .empty with
        ⟨after, report, error | artifacts⟩
      · simp only [Except.toOption, Option.bind_some, hrun] at h
        cases h
      · simp only [Except.toOption, Option.bind_some, hrun] at h
        exact ⟨config, generator, after, report, artifacts, rfl, hgenerator, hrun,
          Option.some.inj h⟩

/-- With the default names, both files of a round survive. -/
theorem default_survival :
    ∃ config generator after report artifacts, Config.ofText "" = .ok config ∧
      ofConfig config = .ok generator ∧
      generator.run sampleSources "src" Destination.memory [] .empty =
        (after, report, .ok artifacts) ∧
      artifacts.length = 2 ∧ generator.target.Survives artifacts (Keyed.find? after) := by
  have hsample : sampleNames? "" = some ["tether_providers.rs", "tether_bindings.rs"] := by
    decide +kernel
  obtain ⟨config, generator, after, report, artifacts, hconfig, hgenerator, hrun, hnames⟩ :=
    exists_run_of_sampleNames? hsample
  obtain ⟨generator', hgenerator', -, hmemory, -⟩ := run_survival hconfig
  obtain rfl := Except.ok.inj (hgenerator.symm.trans hgenerator')
  refine ⟨config, generator, after, report, artifacts, hconfig, hgenerator, hrun, ?_,
    (hmemory _ _ _ _ _ _ _ hrun).2 ?_⟩
  · rw [← List.length_map, hnames]
    rfl
  · rw [hnames]
    decide

/-- Settings that give the unit of the providers and the index one name. -/
def sharedNames : String :=
  "[output]\nproviders = \"b.rs\"\nbindings = \"b.rs\""

/-- Settings with a name for two files are accepted, and the unit is lost under the index. -/
theorem sharedNames_lost :
    ∃ config generator after report artifacts, Config.ofText sharedNames = .ok config ∧
      ofConfig config = .ok generator ∧
      generator.run sampleSources "src" Destination.memory [] .empty =
        (after, report, .ok artifacts) ∧
      ¬∀ artifact ∈ artifacts, Keyed.find? after artifact.name = some artifact.contents := by
  have hsample : sampleNames? sharedNames = some ["b.rs", "b.rs"] := by decide +kernel
  obtain ⟨config, generator, after, report, artifacts, hconfig, hgenerator, hrun, hnames⟩ :=
    exists_run_of_sampleNames? hsample
  refine ⟨config, generator, after, report, artifacts, hconfig, hgenerator, hrun, fun hfound => ?_⟩
  obtain ⟨manifest, -, hgenerate, -⟩ := run_ok hrun
  have hdistinct := (survives_memory_iff hrun).1 (survives_of_found hgenerate hfound)
  rw [hnames] at hdistinct
  exact absurd hdistinct (by decide)

end Generator

end Bindery
