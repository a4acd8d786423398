import Bindery.Proofs.Files.Writing
import Bindery.Proofs.Round.Index
/-!
# Rounds over time

Round after round writes into one directory, from sources that may change in between, and any of
them may fail. `run_ends` says what a single round leaves. `Sound` is what holds at every moment:
where there is an index, the units that it includes are there and whole. Each write keeps it, for an
index is written after its units and no unit is ever taken away.
-/

namespace Bindery

variable {generator : Generator} {target : Target} {path : String}

/-! ## One round -/

/-- Sources have the manifest that artifacts are generated from. -/
def Generator.Generates (generator : Generator) (sources : FileTree) (root : String)
    (report : Report) (artifacts : List Artifact) : Prop :=
  ∃ manifest report', Manifest.ofTree sources root generator.config.crateRoot = .ok manifest ∧
    generator.generate manifest report = (report', .ok artifacts)

/-- The tree that a round into a directory leaves, and its outcome. Nothing is written unless all
artifacts are there. A write that fails leaves exactly the artifacts before it. -/
inductive Generator.RoundEnds (generator : Generator) (sources : FileTree) (root path : String)
    (destination : Destination FileTree) (report : Report) (tree : FileTree) :
    FileTree → Except RoundError (List Artifact) → Prop
  | unsurveyed (error : SurveyError) :
      Manifest.ofTree sources root generator.config.crateRoot = .error error →
      RoundEnds generator sources root path destination report tree tree (.error (.survey error))
  | aborted (manifest : Manifest) (report' : Report) (causes : List Fatal) :
      Manifest.ofTree sources root generator.config.crateRoot = .ok manifest →
      generator.generate manifest report = (report', .error (.aborted causes)) →
      RoundEnds generator sources root path destination report tree tree (.error (.aborted causes))
  | unwritten (written : List Artifact) (artifact : Artifact) (rest : List Artifact)
      (between after : FileTree) (place : String) (cause : FileError) :
      generator.Generates sources root report (written ++ artifact :: rest) →
      destination.writeAll written tree = (between, .ok ()) →
      destination.write artifact between = (after, .error (.unwritable place cause)) →
      after.file? =
        overlay (Destination.placed path) Destination.encoded written tree.file? →
      RoundEnds generator sources root path destination report tree after
        (.error (.unwritable place cause))
  | finished (artifacts : List Artifact) (after : FileTree) :
      generator.Generates sources root report artifacts →
      destination.writeAll artifacts tree = (after, .ok ()) →
      after.file? =
        overlay (Destination.placed path) Destination.encoded artifacts tree.file? →
      RoundEnds generator sources root path destination report tree after (.ok artifacts)

namespace Generator

/-- Only misuse keeps a manifest from being generated from. -/
theorem generate_error {manifest : Manifest} {report report' : Report} {error : RoundError}
    (h : generator.generate manifest report = (report', .error error)) :
    ∃ causes, error = .aborted causes := by
  unfold generate at h
  rcases haccept : generator.accept manifest report with ⟨accepting, refused | accepted⟩ <;>
    rw [haccept] at h
  · obtain rfl := Except.error.inj (Prod.mk.inj h).2
    unfold accept at haccept
    dsimp only at haccept
    split at haccept
    · nomatch (Prod.mk.inj haccept).2
    · exact ⟨_, (Except.error.inj (Prod.mk.inj haccept).2).symm⟩
  · have hassemble : generator.assemble accepted = .error error := (Prod.mk.inj h).2
    simp only [assemble] at hassemble
    split at hassemble
    · unfold Target.emit at hassemble
      split at hassemble
      · exact ⟨_, (Except.error.inj hassemble).symm⟩
      · cases hassemble
    · exact ⟨_, (Except.error.inj hassemble).symm⟩

/-- Every round ends in one of the ways that `RoundEnds` lists. -/
theorem run_ends (generator : Generator) {destination : Destination FileTree}
    (into : destination.WritesInto path) (sources : FileTree) (root : String) (tree : FileTree)
    (report : Report) :
    generator.RoundEnds sources root path destination report tree
      (generator.run sources root destination tree report).1
      (generator.run sources root destination tree report).2.2 := by
  rcases hmanifest : Manifest.ofTree sources root generator.config.crateRoot with error | manifest
  · simp only [run, hmanifest]
    exact .unsurveyed error hmanifest
  · rcases hgenerate : generator.generate manifest report with ⟨report', error | artifacts⟩
    · obtain ⟨causes, rfl⟩ := generate_error hgenerate
      simp only [run, hmanifest, hgenerate]
      exact .aborted manifest report' causes hmanifest hgenerate
    · have hgenerates : generator.Generates sources root report artifacts :=
        ⟨manifest, report', hmanifest, hgenerate⟩
      rcases hwrite : destination.writeAll artifacts tree with ⟨after, error | ok⟩
      · obtain ⟨written, artifact, rest, between, place, cause, rfl, hwritten, hfails, rfl,
          hfiles⟩ := into.file?_writeAll_error hwrite
        simp only [run, hmanifest, hgenerate, hwrite]
        exact .unwritten written artifact rest between after place cause hgenerates hwritten hfails
          hfiles
      · simp only [run, hmanifest, hgenerate, hwrite]
        exact .finished artifacts after hgenerates hwrite (into.file?_writeAll hwrite)

end Generator

/-! ## An index and its units -/

/-- The names of all files that a round may write. -/
def Output.names (output : Output) : List String :=
  [output.providers, output.interceptor, output.bindings]

/-- The names of files are those of different files in a directory. -/
structure Output.IsPlain (output : Output) : Prop where
  plain : ∀ name ∈ output.names, FileTree.IsPlain name
  distinct : output.names.Nodup

namespace Output.IsPlain

variable {output : Output}

theorem unit (h : output.IsPlain) (role : Role) : FileTree.IsPlain (output.unitName role) := by
  cases role
  · exact h.plain _ (by simp [names, unitName])
  · exact h.plain _ (by simp [names, unitName])

theorem index (h : output.IsPlain) : FileTree.IsPlain output.bindings :=
  h.plain _ (by simp [names])

theorem unitName_ne (h : output.IsPlain) (role : Role) :
    output.unitName role ≠ output.bindings := by
  have hdistinct := h.distinct
  simp only [names, List.nodup_cons, List.mem_cons, List.not_mem_nil, not_or] at hdistinct
  cases role
  · exact hdistinct.1.2.1
  · exact hdistinct.2.1.1

theorem eq_of_unitName (h : output.IsPlain) {role other : Role}
    (heq : output.unitName role = output.unitName other) : role = other := by
  have hdistinct := h.distinct
  simp only [names, List.nodup_cons, List.mem_cons, List.not_mem_nil, not_or] at hdistinct
  cases role <;> cases other
  · rfl
  · exact absurd heq hdistinct.1.1
  · exact absurd heq.symm hdistinct.1.1
  · rfl

end Output.IsPlain

/-- Where there is an index in a directory, the units that it includes lie beside it, and they are
whole. -/
def Target.Sound (target : Target) (directory : Place) (files : Place → Option ByteArray) : Prop :=
  ∀ text, FileTree.textAt files (directory ++ [target.output.bindings]) = some text →
    ∃ index, Index.ofText? text = some index ∧
      target.Backs (fun name => FileTree.textAt files (directory ++ [name])) index

namespace Target.Sound

variable {files : Place → Option ByteArray}

/-- The texts in a directory decide whether it is sound. -/
theorem of_eq {others : Place → Option ByteArray} {directory : Place}
    (h : target.Sound directory files)
    (heq : ∀ name, others (directory ++ [name]) = files (directory ++ [name])) :
    target.Sound directory others := by
  have htext : ∀ name, FileTree.textAt others (directory ++ [name]) =
      FileTree.textAt files (directory ++ [name]) := fun name => by
    rw [FileTree.textAt, heq, FileTree.textAt]
  intro text hread
  obtain ⟨index, hindex, hbacks⟩ := h text ((htext _).symm.trans hread)
  exact ⟨index, hindex, by simpa only [htext] using hbacks⟩

theorem textAt_update (files : Place → Option ByteArray) (directory : Place) (artifact : Artifact)
    (name : String) :
    FileTree.textAt (Function.update files (directory ++ [artifact.name])
      (some (Destination.encoded artifact))) (directory ++ [name]) =
        if name = artifact.name then some artifact.contents
        else FileTree.textAt files (directory ++ [name]) := by
  by_cases hname : name = artifact.name
  · rw [if_pos hname, hname, FileTree.textAt_eq_some_iff, Function.update_self]
    rfl
  · rw [if_neg hname, FileTree.textAt, Function.update_of_ne, FileTree.textAt]
    simpa using hname

/-- A unit that is written takes the place of another one. -/
theorem update (plain : target.output.IsPlain) {role : Role} {artifact : Artifact}
    (unit : target.MakesUnit role artifact) (h : target.Sound (FileTree.place path) files) :
    target.Sound (FileTree.place path)
      (Function.update files (Destination.placed path artifact)
        (some (Destination.encoded artifact))) := by
  rw [Destination.placed_of_isPlain (by rw [unit.name]; exact plain.unit role)]
  intro text hread
  rw [textAt_update, if_neg (by rw [unit.name]; exact (plain.unitName_ne role).symm)] at hread
  obtain ⟨index, hindex, hbacks⟩ := h text hread
  refine ⟨index, hindex, hbacks.imp fun other held hheld hunit => ?_⟩
  simp only [textAt_update]
  by_cases hsame : target.output.unitName other = artifact.name
  · obtain rfl := plain.eq_of_unitName (hsame.trans unit.name)
    exact ⟨_, if_pos hsame, unit.contents⟩
  · exact ⟨held, (if_neg hsame).trans hheld, hunit⟩

theorem overlay_units (plain : target.output.IsPlain) {units : List Artifact}
    (made : ∀ unit ∈ units, ∃ role, target.MakesUnit role unit)
    (h : target.Sound (FileTree.place path) files) :
    target.Sound (FileTree.place path)
      (overlay (Destination.placed path) Destination.encoded units files) := by
  induction units generalizing files with
  | nil => exact h
  | cons unit rest ih =>
    obtain ⟨⟨role, hunit⟩, hrest⟩ := List.forall_mem_cons.1 made
    exact ih hrest (update plain hunit h)

/-- All artifacts of a round together make a directory sound, whatever was there before. -/
theorem overlay_all (plain : target.output.IsPlain) {providers interceptor : Option Artifact}
    (defining : ∀ unit ∈ providers, target.MakesUnit .provider unit)
    (intercepting : ∀ unit ∈ interceptor, target.MakesUnit .gateway unit)
    (files : Place → Option ByteArray) :
    target.Sound (FileTree.place path)
      (overlay (Destination.placed path) Destination.encoded
        (providers.toList ++ interceptor.toList ++ [target.index providers interceptor])
        files) := by
  generalize hartifacts : providers.toList ++ interceptor.toList ++
    [target.index providers interceptor] = artifacts
  have hnames : (artifacts.map Artifact.name).Sublist target.output.names := by
    subst hartifacts
    cases providers with
    | none =>
      cases interceptor with
      | none => simp [index, Output.names]
      | some gateway =>
        simp [index, Output.names, (intercepting _ rfl).name, Output.unitName]
    | some provider =>
      cases interceptor with
      | none => simp [index, Output.names, (defining _ rfl).name, Output.unitName]
      | some gateway =>
        simp [index, Output.names, (defining _ rfl).name, (intercepting _ rfl).name,
          Output.unitName]
  have hplain : ∀ artifact ∈ artifacts, FileTree.IsPlain artifact.name := fun artifact hmem =>
    plain.plain _ (hnames.subset (List.mem_map_of_mem hmem))
  have htext : ∀ artifact ∈ artifacts, FileTree.textAt
      (overlay (Destination.placed path) Destination.encoded artifacts files)
        (FileTree.place path ++ [artifact.name]) = some artifact.contents := by
    intro artifact hmem
    rw [FileTree.textAt_eq_some_iff, ← Destination.placed_of_isPlain (hplain artifact hmem)]
    exact overlay_of_nodup (Destination.nodup_placed hplain (plain.distinct.sublist hnames))
      artifact hmem
  intro text hread
  have hindex := htext (target.index providers interceptor) (by simp [← hartifacts])
  obtain rfl : (target.index providers interceptor).contents = text :=
    Option.some.inj (hindex.symm.trans hread)
  exact backs_index defining intercepting fun unit hunit =>
    htext unit (hartifacts ▸ List.mem_append_left _ hunit)

end Target.Sound

/-- However far the writing of a round has come, a sound directory has stayed sound. -/
theorem Generator.Generates.sound (plain : generator.config.output.IsPlain) {sources : FileTree}
    {root : String} {report : Report} {artifacts written : List Artifact}
    (generates : generator.Generates sources root report artifacts)
    (first : written <+: artifacts) {files : Place → Option ByteArray}
    (h : generator.target.Sound (FileTree.place path) files) :
    generator.target.Sound (FileTree.place path)
      (overlay (Destination.placed path) Destination.encoded written files) := by
  obtain ⟨manifest, report', -, hgenerate⟩ := generates
  obtain ⟨providers, interceptor, rfl, defining, intercepting⟩ := artifacts_of_generate hgenerate
  rcases List.prefix_concat_iff.1 first with rfl | hunits
  · exact Target.Sound.overlay_all plain defining intercepting files
  · refine h.overlay_units plain fun unit hunit => ?_
    rcases List.mem_append.1 (hunits.subset hunit) with hmem | hmem
    · exact ⟨.provider, defining unit (Option.mem_toList.1 hmem)⟩
    · exact ⟨.gateway, intercepting unit (Option.mem_toList.1 hmem)⟩

/-! ## Any number of rounds -/

/-- The trees that there can be while rounds of a generator write into a directory which was empty
or absent, and nothing else writes there. The sources of each round are its own, and any of its
writes may fail. -/
inductive Generator.Reaches (generator : Generator) (path : String) : FileTree → Prop
  | start (tree : FileTree) :
      (∀ name rest, tree.node? (FileTree.place path ++ name :: rest) = none) →
      Reaches generator path tree
  /-- Something changes elsewhere. -/
  | elsewhere (before after : FileTree) : Reaches generator path before →
      (∀ rest, after.file? (FileTree.place path ++ rest) =
        before.file? (FileTree.place path ++ rest)) →
      Reaches generator path after
  /-- A round has come as far as some of its writes. -/
  | during (sources : FileTree) (root : String) (report : Report) (artifacts : List Artifact)
      (destination : Destination FileTree) (tree : FileTree) (count : Nat) :
      Reaches generator path tree → generator.Generates sources root report artifacts →
      destination.WritesInto path →
      Reaches generator path (destination.writeAll (artifacts.take count) tree).1
  /-- A round has ended. -/
  | round (sources : FileTree) (root : String) (report : Report)
      (destination : Destination FileTree) (tree : FileTree) :
      Reaches generator path tree → destination.WritesInto path →
      Reaches generator path (generator.run sources root destination tree report).1

namespace Generator

theorem sound_of_reaches (plain : generator.config.output.IsPlain) {tree : FileTree}
    (h : generator.Reaches path tree) :
    generator.target.Sound (FileTree.place path) tree.file? := by
  induction h with
  | start tree hempty =>
    intro text hread
    rw [FileTree.textAt_eq_some_iff, FileTree.file?_eq_some_iff] at hread
    rw [hempty] at hread
    cases hread
  | elsewhere before after hreaches hsame ih => exact ih.of_eq fun name => hsame [name]
  | during sources root report artifacts destination tree count hreaches generates into ih =>
    obtain ⟨written, hwritten, hfiles⟩ := into.exists_prefix (artifacts.take count) tree
    rw [hfiles]
    exact generates.sound plain (hwritten.trans (List.take_prefix _ _)) ih
  | round sources root report destination tree hreaches into ih =>
    have hends := run_ends generator into sources root tree report
    rcases hrun : generator.run sources root destination tree report with ⟨after, report', outcome⟩
    rw [hrun] at hends
    cases hends with
    | unsurveyed => exact ih
    | aborted => exact ih
    | unwritten written artifact rest _ _ _ _ generates _ _ hfiles =>
      rw [hfiles]
      exact generates.sound plain (List.prefix_append _ _) ih
    | finished artifacts _ generates _ hfiles =>
      rw [hfiles]
      exact generates.sound plain List.prefix_rfl ih

/-- Rounds into a directory write all that they generate or stop at the first write that fails, and
write nothing if they do not come to generate. At no moment does an index in the directory include
a file that is not there as a whole unit, defining the function that the index names. -/
theorem rounds_sound (plain : ∀ name ∈ generator.config.output.names, FileTree.IsPlain name)
    (distinct : generator.config.output.names.Nodup) :
    (∀ (sources : FileTree) (root : String) (destination : Destination FileTree) (tree : FileTree)
        (report : Report), destination.WritesInto path →
      generator.RoundEnds sources root path destination report tree
        (generator.run sources root destination tree report).1
        (generator.run sources root destination tree report).2.2) ∧
    ∀ tree, generator.Reaches path tree →
      ∀ text, tree.read (path ++ "/" ++ generator.config.output.bindings) = .ok text →
        ∃ index, Index.ofText? text = some index ∧
          generator.target.Backs (fun name => (tree.read (path ++ "/" ++ name)).toOption)
            index := by
  refine ⟨fun sources root destination tree report into =>
      run_ends generator into sources root tree report,
    fun tree hreaches text hread => ?_⟩
  have hplain : generator.config.output.IsPlain := ⟨plain, distinct⟩
  obtain ⟨hleads, hfile⟩ := FileTree.read_ok_iff.1 hread
  rw [FileTree.place_of_isPlain path hplain.index, ← FileTree.textAt_eq_some_iff] at hfile
  obtain ⟨index, hindex, hbacks⟩ := sound_of_reaches hplain hreaches text hfile
  refine ⟨index, hindex, hbacks.imp fun role held hheld hunit => ⟨held, ?_, hunit⟩⟩
  have hunitRead : tree.read (path ++ "/" ++ generator.config.output.unitName role) = .ok held := by
    refine FileTree.read_ok_iff.2
      ⟨FileTree.leads_of_leads hplain.index (hplain.unit role) hleads, ?_⟩
    rw [FileTree.place_of_isPlain path (hplain.unit role)]
    exact FileTree.textAt_eq_some_iff.1 hheld
  exact congrArg Except.toOption hunitRead

/-- After a round that succeeds, the index of its units is read from the directory. -/
theorem read_index_of_run (plain : generator.config.output.IsPlain) {sources tree after : FileTree}
    {root : String} {report report' : Report} {artifacts : List Artifact}
    (h : generator.run sources root (Destination.directory path) tree report =
      (after, report', .ok artifacts)) :
    ∃ providers interceptor,
      artifacts = providers.toList ++ interceptor.toList ++
        [generator.target.index providers interceptor] ∧
      after.read (path ++ "/" ++ generator.config.output.bindings) =
        .ok (generator.target.index providers interceptor).contents := by
  have hends := run_ends generator (Destination.writesInto_directory path) sources root tree report
  rw [h] at hends
  cases hends with
  | finished _ _ generates hwrite hfiles =>
    obtain ⟨manifest, report'', -, hgenerate⟩ := generates
    obtain ⟨providers, interceptor, rfl, -, -⟩ := artifacts_of_generate hgenerate
    refine ⟨providers, interceptor, rfl, ?_⟩
    have hleads := (Destination.leads_writeAll hwrite).1
      (generator.target.index providers interceptor) (by simp)
    have hplaced := congrFun hfiles
      (Destination.placed path (generator.target.index providers interceptor))
    rw [overlay_append, overlay_singleton, Function.update_self] at hplaced
    exact FileTree.read_slash (FileTree.isAbsolute_of_isPlain plain.index)
      (FileTree.read_ok_iff.2 ⟨hleads, hplaced⟩)

/-- A tree with the sources of a crate in which one type is to be bound. -/
def sampleSources : FileTree where
  nodes := [(["src"], .directory), (["src", "lib.rs"], .file
    "#[provider(\"ping\")] pub struct Ping; impl Delegate for Ping \x7b\x7d".toUTF8)]
  written := []

/-- After a round into a directory that was absent, the index there includes one file. -/
theorem sample_rounds_sound :
    ∃ tree text index, sample.Reaches "out" tree ∧
      tree.read "out/tether_bindings.rs" = .ok text ∧ Index.ofText? text = some index ∧
      index.included = ["/tether_providers.rs"] ∧
      sample.target.Backs (fun name => (tree.read ("out" ++ "/" ++ name)).toOption) index := by
  have hnames : (sample.run sampleSources "src" (Destination.directory "out") .empty
      .empty).2.2.toOption.map (·.map Artifact.name) =
        some ["tether_providers.rs", "tether_bindings.rs"] := by
    decide +kernel
  have hreaches : sample.Reaches "out"
      (sample.run sampleSources "src" (Destination.directory "out") .empty .empty).1 :=
    .round _ _ _ _ _ (.start _ (by simp [FileTree.node?, FileTree.empty, Keyed.find?]))
      (Destination.writesInto_directory _)
  rcases hrun : sample.run sampleSources "src" (Destination.directory "out") .empty .empty with
    ⟨tree, report, error | artifacts⟩ <;> rw [hrun] at hnames hreaches
  · cases hnames
  · have hplain : ∀ name ∈ sample.config.output.names, FileTree.IsPlain name := by decide
    have hdistinct : sample.config.output.names.Nodup := by decide
    obtain ⟨providers, interceptor, rfl, hread⟩ := read_index_of_run ⟨hplain, hdistinct⟩ hrun
    obtain ⟨index, hindex, hbacks⟩ :=
      (rounds_sound hplain hdistinct).2 tree hreaches _ hread
    refine ⟨tree, _, index, hreaches, hread, hindex, ?_, hbacks⟩
    rw [Index.ofText?_index] at hindex
    obtain rfl := Option.some.inj hindex
    have hunits : (providers.toList ++ interceptor.toList).map Artifact.name =
        ["tether_providers.rs"] := by
      have hall : (providers.toList ++ interceptor.toList ++
          [sample.target.index providers interceptor]).map Artifact.name =
            ["tether_providers.rs"] ++ ["tether_bindings.rs"] := Option.some.inj hnames
      rw [List.map_append] at hall
      exact List.append_cancel_right hall
    have hincluded : (providers.toList ++ interceptor.toList).map ("/" ++ ·.name) =
        ((providers.toList ++ interceptor.toList).map Artifact.name).map ("/" ++ ·) :=
      List.map_map.symm
    rw [hincluded, hunits]
    rfl

end Generator

end Bindery
