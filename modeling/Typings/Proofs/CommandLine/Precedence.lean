import Typings.Proofs.CommandLine.Run

/-!
# Options, the configuration file and the defaults

A setting has the value that an option gives it, else the one that the configuration file gives
it, else its default.  A run goes by these settings alone: it ends as a run without a
configuration file does whose options spell them out.

**Values that are replaced.**  A configuration file is checked by itself when it is loaded.  A
target or a generator that makes no sense there stops the run, also where an option replaces it.

**Paths.**  An option cannot have an empty path for its value, but the configuration file can.
Such settings cannot be spelled out.  The run fails, since no file is at an empty path.
-/

namespace Typings

namespace CommandLine

variable {tree other : FileTree} {options : Options} {config : Configuration}

section Spelling

/-- An option and its value as one argument. -/
def spelled (option : OptionName) (value : Text) : Text :=
  '-' :: '-' :: (option.long ++ '=' :: value)

theorem readLong_spelled (option : OptionName) (value : Text) :
    readLong (option.long ++ '=' :: value) = .valued option value := by
  have hplain : '=' ∉ option.long := by
    cases option <;> decide
  have hname : (option.long ++ '=' :: value).takeWhile (· != '=') = option.long := by
    have hletters : ∀ c ∈ option.long, (c != '=') = true := fun c hc => by
      simpa using fun heq : c = '=' => hplain (heq ▸ hc)
    rw [List.takeWhile_append_of_pos hletters, List.takeWhile_cons_of_neg (by simp),
      List.append_nil]
  have hoption : OptionName.ofLong? option.long = some option := by
    cases option <;> decide
  simp [readLong, hname, hoption]

theorem readArgument_spelled (option : OptionName) (value : Text) :
    readArgument (spelled option value) = .valued option value := by
  have hlong : option.long ≠ [] := by
    cases option <;> decide
  obtain ⟨c, rest, hcons⟩ := List.exists_cons_of_ne_nil hlong
  have hread := readLong_spelled option value
  rw [hcons, List.cons_append] at hread
  rw [spelled, hcons, List.cons_append]
  exact hread

/-- Options that are different, with no path among their values that is empty, can be spelled
out. -/
theorem readArguments_spelled {options given : Options}
    (hdistinct : ((options ++ given).map Prod.fst).Nodup)
    (hpaths : ∀ entry ∈ given, entry.1.isPath = true → entry.2 ≠ []) :
    readArguments options none (given.map fun entry => spelled entry.1 entry.2) =
      .run (options ++ given) := by
  induction given generalizing options with
  | nil => simp [readArguments]
  | cons entry rest ih =>
      obtain ⟨option, value⟩ := entry
      obtain ⟨hvalue, hrest⟩ := List.forall_mem_cons.mp hpaths
      have hfresh : (options.lookup option).isSome = false := by
        rw [Option.isSome_eq_false_iff, Option.isNone_iff_eq_none, List.lookup_eq_none_iff]
        intro earlier hearlier
        have hne := (List.pairwise_append.mp (List.pairwise_map.mp hdistinct)).2.2 earlier hearlier
          (option, value) (List.mem_cons_self ..)
        simpa [bne_iff_ne] using Ne.symm hne
      have hadd : addOption options option value = some (options ++ [(option, value)]) := by
        have hkept : (option.isPath && value.isEmpty) = false := by
          cases hpath : option.isPath with
          | false => rfl
          | true => simpa using hvalue hpath
        simp [addOption, hkept, hfresh]
      have hnext : options ++ (option, value) :: rest = options ++ [(option, value)] ++ rest := by
        simp
      simp only [List.map_cons, readArguments, readArgument_spelled, hadd]
      rw [hnext] at hdistinct ⊢
      exact ih hdistinct hrest

/-- No path among the values of the options is empty. -/
def PathsGiven (options : Options) : Prop :=
  ∀ entry ∈ options, entry.1.isPath = true → entry.2 ≠ []

theorem pathsGiven_addOption {options after : Options} {option : OptionName} {value : Text}
    (hadd : addOption options option value = some after) (h : PathsGiven options) :
    PathsGiven after := by
  rw [addOption] at hadd
  split at hadd
  · cases hadd
  · rename_i hkept
    obtain rfl := Option.some.inj hadd
    refine List.forall_mem_append.mpr ⟨h, List.forall_mem_singleton.mpr fun hpath hempty => ?_⟩
    simp [show option.isPath = true from hpath, show value = [] from hempty] at hkept

theorem pathsGiven_readArguments {options after : Options} {awaiting : Option OptionName}
    {arguments : List Text} (hread : readArguments options awaiting arguments = .run after)
    (h : PathsGiven options) : PathsGiven after := by
  fun_induction readArguments options awaiting arguments with
  | case2 options awaiting hawaiting => exact Request.run.inj hread ▸ h
  | case3 options argument rest option hargument next hadd ih =>
      exact ih hread (pathsGiven_addOption hadd h)
  | case6 options argument rest option value hargument next hadd ih =>
      exact ih hread (pathsGiven_addOption hadd h)
  | case8 options argument rest option hargument ih => exact ih hread h
  | case11 options argument rest hargument hlast => exact Request.run.inj hread ▸ h
  | _ => cases hread

theorem pathsGiven_of_request {arguments : List Text} (h : request arguments = .run options) :
    PathsGiven options :=
  pathsGiven_readArguments h (by simp [PathsGiven])

/-- The command line gives the settings by its options alone, with no configuration file. -/
def SpellsOut (arguments : List Text) (config : Configuration) (docIndex : Option Text) : Prop :=
  ∃ options, request arguments = .run options ∧ options.lookup .config = none ∧
    GivenBy options (fun _ => none) config ∧ options.lookup .docIndex = docIndex

theorem PathsGiven.ne_nil {option : OptionName} {value : Text} (h : PathsGiven options)
    (hpath : option.isPath = true) (hvalue : options.lookup option = some value) :
    value ≠ [] := by
  obtain ⟨earlier, later, rfl, -⟩ := List.lookup_eq_some_iff.mp hvalue
  exact h (option, value) (by simp) hpath

/-- Settings with paths that are not empty can be spelled out. -/
theorem exists_spellsOut {docIndex : Option Text} (hhelpers : config.handAuthored ≠ [])
    (hgenerated : config.generated ≠ []) (hindex : ∀ path, docIndex = some path → path ≠ []) :
    ∃ arguments, SpellsOut arguments config docIndex := by
  let given : Options :=
    [(.pre, config.handAuthored), (.generated, config.generated), (.target, config.target),
      (.generator, config.generator)] ++
      (docIndex.map fun path => (OptionName.docIndex, path)).toList
  have hrequest : request (given.map fun entry => spelled entry.1 entry.2) = .run given := by
    refine readArguments_spelled ?_ ?_
    · cases docIndex <;> simp [given]
    · cases docIndex with
      | none => simp [given, hhelpers, hgenerated, OptionName.isPath]
      | some path => simp [given, hhelpers, hgenerated, OptionName.isPath, hindex path rfl]
  refine ⟨_, given, hrequest, ?_, fun setting => ?_, ?_⟩
  · cases docIndex <;> rfl
  · cases setting <;> rfl
  · cases docIndex <;> rfl

/-- Settings that are spelled out have no empty path. -/
theorem SpellsOut.ne_nil {arguments : List Text} {docIndex : Option Text}
    (h : SpellsOut arguments config docIndex) :
    config.handAuthored ≠ [] ∧ config.generated ≠ [] := by
  obtain ⟨options, hrequest, -, hvalues, -⟩ := h
  have hpaths := pathsGiven_of_request hrequest
  have hgiven (setting : Configuration.Setting) (hpath : (optionOf setting).isPath = true)
      (hdefault : Configuration.standard.get setting ≠ []) : config.get setting ≠ [] := by
    rw [hvalues setting, Option.or_none]
    cases hlookup : options.lookup (optionOf setting) with
    | none => exact hdefault
    | some value => exact hpaths.ne_nil hpath hlookup
  exact ⟨hgiven .handAuthored rfl (by decide), hgiven .generated rfl (by decide)⟩

end Spelling

section Outcomes

/-- A run from its settings on: how it ends, and the files afterwards. -/
def concluded (tree : FileTree) (config : Configuration) (docIndex : Option Text) :
    Ending × FileTree :=
  match mergeOfReads config (tree.read config.handAuthored) (tree.read config.generated),
      docIndex with
  | .error failure, _ => (.broken (.merge failure), tree)
  | .ok merged, none => (.output merged.text, tree)
  | .ok merged, some path =>
      match tree.write? path merged.index.jsonText with
      | some after => (.output merged.text, after)
      | none => (.broken (.index path), tree)

theorem run_effective_of_settings (h : Settings tree options config) :
    (effective FileTree.access options).run tree = (.ok config, tree) := by
  cases h with
  | standard asked values =>
      obtain rfl := values.eq (givenBy_standard options)
      simp only [effective, asked]
      rfl
  | loaded asked file decoded usable values =>
      obtain rfl := values.eq (givenBy_decode decoded options)
      simp only [effective, asked, run_bind_of_run (run_load tree _), file, Except.mapError,
        Except.bind, Configuration.ofFileText, decoded, usable]
      rfl

/-- A run goes by its settings alone, wherever they come from. -/
theorem runIn_eq_concluded {arguments : List Text} (hrequest : request arguments = .run options)
    (hsettings : Settings tree options config) :
    runIn tree arguments = concluded tree config (options.lookup .docIndex) := by
  have hrun : runIn tree arguments = (merge FileTree.access options).run tree := by
    simp only [runIn, run, hrequest]
  rw [hrun, merge, run_bind_of_run (run_effective_of_settings hsettings)]
  refine (run_bind_of_run (run_ofFiles_eq tree config)).trans ?_
  unfold concluded
  cases mergeOfReads config (tree.read config.handAuthored) (tree.read config.generated) with
  | error failure => rfl
  | ok merged =>
      cases hasked : options.lookup .docIndex with
      | none =>
          simp only [finish, hasked]
          rfl
      | some path =>
          simp only [finish, hasked, run_bind_of_run (run_write tree path _)]
          cases tree.write? path merged.index.jsonText <;> rfl

/-- The trees are alike to a run with the settings: both documents say the same, and the index can
be written to both trees or to neither. -/
structure Alike (tree other : FileTree) (config : Configuration) (docIndex : Option Text) :
    Prop where
  helpers : other.read config.handAuthored = tree.read config.handAuthored
  generated : other.read config.generated = tree.read config.generated
  index : ∀ path, docIndex = some path → ∀ content,
    (other.write? path content).isSome = (tree.write? path content).isSome

/-- In trees that are alike, runs with the same settings end alike and write the same index. -/
theorem Alike.concluded_eq {docIndex : Option Text} (h : Alike tree other config docIndex) :
    (concluded other config docIndex).1 = (concluded tree config docIndex).1 ∧
      ∀ path, docIndex = some path → (concluded tree config docIndex).1.code = 0 →
        (concluded other config docIndex).2.read path =
          (concluded tree config docIndex).2.read path := by
  unfold concluded
  rw [h.helpers, h.generated]
  cases mergeOfReads config (tree.read config.handAuthored) (tree.read config.generated) with
  | error failure => exact ⟨rfl, fun path _ hcode => by cases hcode⟩
  | ok merged =>
      cases docIndex with
      | none => exact ⟨rfl, fun path hpath => by cases hpath⟩
      | some path =>
          have hboth := h.index path rfl merged.index.jsonText
          cases hother : other.write? path merged.index.jsonText with
          | none =>
              have hnone : tree.write? path merged.index.jsonText = none := by
                simpa [hother] using hboth
              simp only [hother, hnone]
              exact ⟨trivial, fun path _ hcode => by cases hcode⟩
          | some after =>
              rw [hother, Option.isSome_some] at hboth
              obtain ⟨written, hwritten⟩ := Option.isSome_iff_exists.mp hboth.symm
              simp only [hother, hwritten]
              refine ⟨trivial, fun index hindex _ => ?_⟩
              obtain rfl := Option.some.inj hindex
              rw [(FileTree.wrote_of_write? hother).read _ rfl,
                (FileTree.wrote_of_write? hwritten).read _ rfl]

/-- A run that fails prints nothing and changes no file. -/
theorem concluded_of_code_ne_zero {docIndex : Option Text}
    (h : (concluded tree config docIndex).1.code ≠ 0) :
    (concluded tree config docIndex).1.code = 1 ∧
      (concluded tree config docIndex).1.printed = [] ∧
      (concluded tree config docIndex).2 = tree := by
  unfold concluded at h ⊢
  cases hmerge : mergeOfReads config (tree.read config.handAuthored)
      (tree.read config.generated) with
  | error failure => exact ⟨rfl, rfl, rfl⟩
  | ok merged =>
      rw [hmerge] at h
      cases docIndex with
      | none => exact absurd rfl h
      | some path =>
          cases hwrite : tree.write? path merged.index.jsonText with
          | none =>
              simp only [hwrite]
              exact ⟨rfl, rfl, trivial⟩
          | some after =>
              simp only [hwrite] at h
              exact absurd rfl h

/-- No file is at an empty path. -/
theorem read_nil (tree : FileTree) : tree.read [] = .error .missing := by
  rfl

/-- With an empty path among the settings there is no merge. -/
theorem concluded_of_empty (docIndex : Option Text)
    (h : config.handAuthored = [] ∨ config.generated = []) :
    ∃ failure, concluded tree config docIndex = (.broken (.merge failure), tree) := by
  obtain ⟨failure, hfailure⟩ : ∃ failure, mergeOfReads config (tree.read config.handAuthored)
      (tree.read config.generated) = .error failure := by
    unfold mergeOfReads
    cases config.check with
    | error failure => exact ⟨failure, rfl⟩
    | ok _ =>
        rcases h with hempty | hempty
        · rw [hempty, read_nil]
          exact ⟨_, rfl⟩
        · rw [hempty, read_nil]
          cases tree.read config.handAuthored <;> exact ⟨_, rfl⟩
  refine ⟨failure, ?_⟩
  unfold concluded
  rw [hfailure]

/-- A configuration file that makes no sense by itself stops the run. -/
theorem runIn_of_unusable {arguments : List Text} {path text : Text} {file : Configuration}
    {failure : Failure} (hrequest : request arguments = .run options)
    (hasked : options.lookup .config = some path) (hread : tree.read path = .ok text)
    (hdecode : Configuration.decode text = .ok file) (hunusable : file.check = .error failure) :
    runIn tree arguments = (.broken (.configuration path failure), tree) := by
  have hrun : runIn tree arguments = (merge FileTree.access options).run tree := by
    simp only [runIn, run, hrequest]
  have heffective : (effective FileTree.access options).run tree =
      (.error (.configuration path failure), tree) := by
    simp only [effective, hasked, run_bind_of_run (run_load tree path), hread, Except.mapError,
      Except.bind, Configuration.ofFileText, hdecode, hunusable]
    rfl
  rw [hrun, merge, run_bind_of_run heffective]
  rfl

/-- Two runs come to the same: in their codes, in what they print and in all files. -/
def SameOutcome (a b : Ending × FileTree) : Prop :=
  a.1.code = b.1.code ∧ a.1.printed = b.1.printed ∧ a.2 = b.2

/-- How a run with a configuration file compares with runs that have its settings without one. -/
structure GoesBySettings (tree : FileTree) (arguments : List Text) (options : Options)
    (path text : Text) (file : Configuration) : Prop where
  /-- A setting is given by an option, else by the file, else by default. -/
  values : GivenBy options (Configuration.fileValue? text) (overridden options file)
  /-- Options that spell the settings out give the same run. -/
  spelled : file.check = .ok () → ∀ others,
    SpellsOut others (overridden options file) (options.lookup .docIndex) →
      runIn tree others = runIn tree arguments
  /-- With another file or other options that come to the same settings, the run ends the same and
  writes the same index. -/
  replaced : file.check = .ok () → ∀ other others given, request others = .run given →
    Settings other given (overridden options file) →
    given.lookup .docIndex = options.lookup .docIndex →
    Alike tree other (overridden options file) (options.lookup .docIndex) →
      (runIn other others).1 = (runIn tree arguments).1 ∧
        ∀ index, options.lookup .docIndex = some index → (runIn tree arguments).1.code = 0 →
          (runIn other others).2.read index = (runIn tree arguments).2.read index
  /-- A file that is no good by itself stops the run, whatever the options replace. -/
  unusable : ∀ failure, file.check = .error failure →
    runIn tree arguments = (.broken (.configuration path failure), tree)
  /-- The file makes a difference only where it stops a run that would have succeeded. -/
  same_iff : ∀ others, SpellsOut others (overridden options file) (options.lookup .docIndex) →
    (SameOutcome (runIn tree arguments) (runIn tree others) ↔
      file.check = .ok () ∨ (runIn tree others).1.code ≠ 0)
  /-- The settings can be spelled out unless a path is empty. -/
  spellable : (∃ others, SpellsOut others (overridden options file) (options.lookup .docIndex)) ↔
    (overridden options file).handAuthored ≠ [] ∧ (overridden options file).generated ≠ []
  /-- With an empty path the run fails, prints nothing and changes no file. -/
  empty : (overridden options file).handAuthored = [] ∨ (overridden options file).generated = [] →
    (runIn tree arguments).1.code = 1 ∧ (runIn tree arguments).1.printed = [] ∧
      (runIn tree arguments).2 = tree

theorem runIn_goesBySettings (tree : FileTree) (arguments : List Text) (options : Options)
    (path text : Text) (file : Configuration) (hrequest : request arguments = .run options)
    (hasked : options.lookup .config = some path) (hread : tree.read path = .ok text)
    (hdecode : Configuration.decode text = .ok file) :
    GoesBySettings tree arguments options path text file := by
  have hrun : file.check = .ok () → runIn tree arguments =
      concluded tree (overridden options file) (options.lookup .docIndex) := fun husable =>
    runIn_eq_concluded hrequest
      (.loaded hasked hread hdecode husable (givenBy_decode hdecode options))
  have hunusable : ∀ failure, file.check = .error failure →
      runIn tree arguments = (.broken (.configuration path failure), tree) := fun _ =>
    runIn_of_unusable hrequest hasked hread hdecode
  have hspelled : ∀ others,
      SpellsOut others (overridden options file) (options.lookup .docIndex) →
      runIn tree others = concluded tree (overridden options file) (options.lookup .docIndex) := by
    rintro others ⟨given, hgiven, hnone, hvalues, hindex⟩
    rw [← hindex]
    exact runIn_eq_concluded hgiven (.standard hnone hvalues)
  constructor
  · exact givenBy_decode hdecode options
  · intro husable others hothers
    rw [hrun husable, hspelled others hothers]
  · intro husable other others given hgiven hsettings hindex halike
    rw [hrun husable, runIn_eq_concluded hgiven hsettings, hindex]
    exact halike.concluded_eq
  · exact hunusable
  · intro others hothers
    rw [hspelled others hothers]
    cases husable : file.check with
    | ok _ =>
        rw [hrun husable]
        exact iff_of_true ⟨rfl, rfl, rfl⟩ (.inl rfl)
    | error failure =>
        rw [hunusable failure husable]
        constructor
        · rintro ⟨hcode, -, -⟩
          exact .inr fun hzero => by cases hcode.trans hzero
        · intro hfails
          obtain ⟨hcode, hprinted, htree⟩ :=
            concluded_of_code_ne_zero (hfails.resolve_left (by simp))
          exact ⟨hcode.symm, hprinted.symm, htree.symm⟩
  · constructor
    · rintro ⟨others, hothers⟩
      exact hothers.ne_nil
    · rintro ⟨hhelpers, hgenerated⟩
      refine exists_spellsOut hhelpers hgenerated fun index hindex => ?_
      exact (pathsGiven_of_request hrequest).ne_nil rfl hindex
  · intro hempty
    cases husable : file.check with
    | error failure =>
        rw [hunusable failure husable]
        exact ⟨rfl, rfl, rfl⟩
    | ok _ =>
        obtain ⟨failure, hfailure⟩ := concluded_of_empty (options.lookup .docIndex) hempty
        rw [hrun husable, hfailure]
        exact ⟨rfl, rfl, rfl⟩

/-- A run whose target is given by an option over the one of the file, which also gives a
generator. -/
theorem runIn_goesBySettings_target :
    ∃ tree arguments options path text file, request arguments = .run options ∧
      options.lookup .config = some path ∧ tree.read path = .ok text ∧
      Configuration.decode text = .ok file ∧ file.check = .ok () ∧
      Configuration.fileValue? text .target = some ['A'] ∧
      (overridden options file).target = ['B'] ∧ (overridden options file).generator = ['x'] ∧
      (runIn tree arguments).1.code = 0 ∧ GoesBySettings tree arguments options path text file := by
  refine ⟨FileTree.ofList [
      ("c.toml".toList, .text "target = \"A\"\ngenerator = \"x\"\n".toList),
      ("p.d.ts".toList, .text []),
      ("g.d.ts".toList, .text [])],
    ["--config=c.toml".toList, "--pre=p.d.ts".toList, "--generated=g.d.ts".toList,
      "--target=B".toList],
    [(.config, "c.toml".toList), (.pre, "p.d.ts".toList), (.generated, "g.d.ts".toList),
      (.target, ['B'])],
    "c.toml".toList, "target = \"A\"\ngenerator = \"x\"\n".toList,
    ⟨Configuration.standard.handAuthored, Configuration.standard.generated, ['A'], ['x']⟩,
    by decide, by decide, by decide, by decide,
    by decide, by decide, by decide, by decide,
    by decide, ?_⟩
  exact runIn_goesBySettings _ _ _ _ _ _ (by decide) (by decide)
    (by decide) (by decide)

/-- A configuration file without a target stops a run whose target is given by an option. -/
theorem exists_not_sameOutcome :
    ∃ tree arguments others options path text file, request arguments = .run options ∧
      options.lookup .config = some path ∧ tree.read path = .ok text ∧
      Configuration.decode text = .ok file ∧
      SpellsOut others (overridden options file) (options.lookup .docIndex) ∧
      (runIn tree arguments).1.code = 1 ∧ (runIn tree others).1.code = 0 ∧
      ¬ SameOutcome (runIn tree arguments) (runIn tree others) := by
  let tree := FileTree.ofList [
    ("c.toml".toList, .text "target = \"\"\n".toList),
    ("p.d.ts".toList, .text []),
    ("g.d.ts".toList, .text [])]
  let shared := ["--pre=p.d.ts".toList, "--generated=g.d.ts".toList, "--target=B".toList]
  let options : Options :=
    [(.pre, "p.d.ts".toList), (.generated, "g.d.ts".toList), (.target, ['B'])]
  have hstops : (runIn tree ("--config=c.toml".toList :: shared)).1.code = 1 := by
    decide
  have hsucceeds : (runIn tree shared).1.code = 0 := by
    decide
  refine ⟨tree, "--config=c.toml".toList :: shared, shared,
    (.config, "c.toml".toList) :: options, "c.toml".toList, "target = \"\"\n".toList,
    { Configuration.standard with target := [] }, by decide, by decide,
    by decide, by decide, ⟨options, by decide, by decide,
      fun setting => by cases setting <;> decide, by decide⟩, hstops, hsucceeds, fun hsame => ?_⟩
  rw [SameOutcome, hstops, hsucceeds] at hsame
  cases hsame.1

end Outcomes

end CommandLine

end Typings
