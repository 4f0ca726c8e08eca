import RulePack.Proofs.Installation.Agreeing
import RulePack.Proofs.Plugin.Splitting
import RulePack.Proofs.Text.Shown

/-!
# Spellings of a target directory

A target directory that begins with a name may be written after `./`, and with slashes behind it.
That makes no difference to its plugin paths, whether or not its bytes are the writing of a text.

* `Path.BeginsWithName`, `Path.Spelling` — such directories, and the ways to write them;
* `PluginPath.base_of_beginsWithName` — the base directories that stand for them;
* `Installation.pluginsFor_of_spelling` — all spellings have the same plugin paths;
* `Installation.AddsNothing` — a registration that adds nothing to the one before;
* `Installation.spellings_agree` — registering rules under another spelling adds nothing.
-/

namespace RulePack

namespace Path

/-- The first segment of the path is a name: it is relative, and begins with no dots that lead to a
directory. -/
def BeginsWithName (p : Path) : Prop :=
  ∃ s more, p.segments = s :: more ∧ s ≠ [] ∧ s ≠ here ∧ s ≠ above

/-- Ways to write a directory: as it is, after a single dot, and with slashes behind it. -/
inductive Spelling (p : Path) : Path → Prop
  | plain : Spelling p p
  | dotted : Spelling p ⟨here ++ slash :: p.bytes⟩
  | slashed (count : Nat) : Spelling p ⟨p.bytes ++ List.replicate count slash⟩

variable {p : Path}

theorem BeginsWithName.isAbsolute (h : p.BeginsWithName) : p.isAbsolute = false := by
  obtain ⟨s, more, hsegments, hne, -⟩ := h
  rw [Bool.eq_false_iff]
  intro habsolute
  obtain ⟨t, rest, hrest⟩ := isAbsolute_iff_segments.mp habsolute
  rw [hsegments] at hrest
  exact hne (List.cons.inj hrest).1

theorem BeginsWithName.startsWithDots (h : p.BeginsWithName) :
    PluginPath.startsWithDots p = false := by
  obtain ⟨s, more, hsegments, -, hhere, habove⟩ := h
  rw [PluginPath.startsWithDots, hsegments]
  show (s == here || s == above) = false
  rw [Bool.or_eq_false_iff, beq_eq_false_iff_ne, beq_eq_false_iff_ne]
  exact ⟨hhere, habove⟩

/-- Slashes behind a path do not change with which name it begins. -/
theorem BeginsWithName.slashed (h : p.BeginsWithName) (count : Nat) :
    BeginsWithName ⟨p.bytes ++ List.replicate count slash⟩ := by
  cases count with
  | zero =>
    rw [List.replicate_zero, List.append_nil]
    exact h
  | succ count =>
    obtain ⟨s, more, hsegments, hname⟩ := h
    refine ⟨s, more ++ splitSlashes (List.replicate count slash), ?_, hname⟩
    rw [segments, List.replicate_succ, splitSlashes_append_slash, ← segments, hsegments,
      List.cons_append]

end Path

namespace PluginPath

variable {target : Path}

theorem forwardSlashes_append (text more : String) :
    forwardSlashes (text ++ more) = forwardSlashes text ++ forwardSlashes more := by
  rw [← String.toList_inj, forwardSlashes, String.toList_map, String.toList_append,
    String.toList_append, forwardSlashes, forwardSlashes, String.toList_map, String.toList_map,
    List.map_append]

/-- A directory that begins with a name is written after `./`. -/
theorem base_of_beginsWithName (h : target.BeginsWithName) :
    base target = "./" ++ forwardSlashes target.shown := by
  rw [base, h.isAbsolute, h.startsWithDots]
  rfl

/-- One that is written after `./` already stays as it is. -/
theorem base_dotted (h : target.BeginsWithName) :
    base ⟨Path.here ++ Path.slash :: target.bytes⟩ = base target := by
  have hdots : startsWithDots ⟨Path.here ++ Path.slash :: target.bytes⟩ = true := by
    rw [startsWithDots, Path.segments, Path.splitSlashes_append_slash]
    rfl
  have hascii : ∀ c ∈ ['.', '/'], c.toNat < 128 := by
    rw [List.forall_mem_cons, List.forall_mem_singleton]
    exact ⟨by decide, by decide⟩
  have hshown : Path.shown ⟨Path.here ++ Path.slash :: target.bytes⟩ = "./" ++ target.shown :=
    Text.shown_append hascii target.bytes
  have hfront : forwardSlashes "./" = "./" := forwardSlashes_of_not_mem (by decide)
  rw [base_of_beginsWithName h, base, hdots, Bool.or_true, if_pos rfl, hshown,
    forwardSlashes_append, hfront]

/-- Slashes behind a directory stand behind its base. -/
theorem base_slashed (h : target.BeginsWithName) (count : Nat) :
    base ⟨target.bytes ++ List.replicate count Path.slash⟩
      = base target ++ String.ofList (List.replicate count '/') := by
  have hshown : Path.shown ⟨target.bytes ++ List.replicate count Path.slash⟩
      = target.shown ++ String.ofList (List.replicate count '/') :=
    Text.shown_append_replicate (c := '/') (by decide) target.bytes count
  have hslashes : forwardSlashes (String.ofList (List.replicate count '/'))
      = String.ofList (List.replicate count '/') := by
    refine forwardSlashes_of_not_mem fun hmem => ?_
    rw [String.toList_ofList] at hmem
    exact absurd (List.eq_of_mem_replicate hmem) (by decide)
  rw [base_of_beginsWithName h, base_of_beginsWithName (h.slashed count), hshown,
    forwardSlashes_append, hslashes, String.append_assoc]

theorem ofRule_append_slashes {base : String} (h : base ≠ "") (count : Nat) (r : Rule) :
    ofRule (base ++ String.ofList (List.replicate count '/')) r = ofRule base r := by
  have hne : base ++ String.ofList (List.replicate count '/') ≠ "" := by
    intro hempty
    exact h (String.append_eq_empty_iff.mp hempty).1
  rw [ofRule_of_ne hne, ofRule_of_ne h, trimSlashes_append]

end PluginPath

namespace Installation

variable {i : Installation} {target other : Path} {rules : List Rule} {root path : Path}
  {d d' d'' : Disk} {plugins added existing : List String} {result : Except Failure Registration}

/-- All spellings of a directory have the same plugin paths. -/
theorem pluginsFor_of_spelling (h : target.BeginsWithName) (hspelling : target.Spelling other)
    (rules : List Rule) : pluginsFor other rules = pluginsFor target rules := by
  cases hspelling with
  | plain => rfl
  | dotted => rw [pluginsFor, PluginPath.base_dotted h, pluginsFor]
  | slashed count =>
    have hne : PluginPath.base target ≠ "" := by
      rw [PluginPath.base_of_beginsWithName h]
      intro hempty
      exact absurd (String.append_eq_empty_iff.mp hempty).1 (by decide)
    rw [pluginsFor, PluginPath.base_slashed h, pluginsFor, PluginPath.ofRules, PluginPath.ofRules]
    exact List.map_congr_left fun r _ => PluginPath.ofRule_append_slashes hne count r

/-! ### Registering the same plugins again -/

/-- A registration adds nothing to the configuration that the one before it has left: it tells so, or
it leaves the disk as it is since the configuration cannot be loaded.  The plugins in the file are
the same, without repetitions. -/
structure AddsNothing (path : Path) (d d' : Disk) (result : Except Failure Registration) :
    Prop where
  tells : result = .ok (.updated path [])
    ∨ ∃ failure plugins, loadConfig path d = .error failure
      ∧ result = .ok (.skipped path failure.message plugins) ∧ d' = d
  plugins : ∃ plugins, PluginsIn path d plugins ∧ PluginsIn path d' plugins.eraseDups

/-- After a new configuration has been made. -/
theorem Registers.again_of_created (h : Registers root plugins d d' (.ok (.created path)))
    (hagain : Registers root plugins d' d'' result) :
    AddsNothing path d' d'' result ∧ result = .ok (.updated path []) := by
  obtain ⟨hlocate, hin, c, hload⟩ := h.creates
  have hplugins := hin.load c hload
  have htells := (hagain.of_load hlocate hload hplugins).2
  rw [PluginList.missing_merge_eq_nil_iff.mpr (List.Subset.refl _)] at htells
  obtain ⟨-, hin'⟩ := hagain.updates hlocate hload hplugins
  rw [eraseDups_append_self] at hin'
  exact ⟨⟨Or.inl htells, plugins, hin, hin'⟩, htells⟩

/-- After one that was there has been written with the plugins. -/
theorem Registers.again_of_updated (h : Registers root plugins d d' (.ok (.updated path added)))
    (hagain : Registers root plugins d' d'' result) :
    AddsNothing path d' d'' result
      ∧ ((∀ base, baseConfig root d = .ok base → base.Whole) → result = .ok (.updated path [])) := by
  obtain ⟨hlocate, c, existing, hload, hplugins⟩ := h.loads
  obtain ⟨hwrite, -⟩ := h.of_load hlocate hload hplugins
  obtain ⟨hlocate', hin⟩ := h.updates hlocate hload hplugins
  have hin' := hagain.keeps_plugins hlocate' hin (eraseDups_append_again existing plugins)
  -- a configuration that can be loaded again has all the plugins
  have htells : ∀ c', loadConfig path d' = .ok c' → result = .ok (.updated path []) := by
    intro c' hload'
    rw [(hagain.of_load hlocate' hload' (hin.load c' hload')).2,
      PluginList.missing_merge_eq_nil_iff.mpr fun p hp =>
        List.mem_eraseDups.mpr (List.mem_append_right _ hp)]
  have htold : result = .ok (.updated path []) ∨ ∃ failure plugins,
      loadConfig path d' = .error failure
        ∧ result = .ok (.skipped path failure.message plugins) ∧ d'' = d' := by
    cases hload' : loadConfig path d' with
    | ok c' => exact Or.inl (htells c' hload')
    | error failure =>
      obtain ⟨hskipped, hdisk⟩ := hagain.of_failure hlocate' hload'
      exact Or.inr ⟨failure, plugins, rfl, hskipped, hdisk⟩
  refine ⟨⟨htold, (existing ++ plugins).eraseDups, hin, ?_⟩, fun hwhole => ?_⟩
  · rw [PluginList.eraseDups_of_nodup (PluginList.nodup_eraseDups _)]
    exact hin'
  · obtain ⟨rfl, hsound⟩ := loadConfig_eq_ok hload
    have hbase : baseConfig root d = .ok c := by
      rw [baseConfig, hlocate]
      exact hload
    exact htells _ (Config.loadConfig_of_write
      (Config.sound_withPlugins hsound (PluginList.merge existing plugins))
      (Config.whole_withPlugins (hwhole c hbase) (PluginList.merge existing plugins)) hwrite)

/-- **How a directory is spelled does not matter.**  A directory that begins with a name has the same
plugin paths as it is, after `./` and with any number of slashes behind it.  When rules have been
registered under one of these spellings, registering them under another one adds nothing: always when
the first registration has made the configuration, and otherwise unless the configuration has other
numbers than whole ones of 64 bits and cannot be loaded again, so that it is left alone. -/
theorem spellings_agree {target first second : Path} (h : target.BeginsWithName)
    (hfirst : target.Spelling first) (hsecond : target.Spelling second) (rules : List Rule) :
    pluginsFor first rules = pluginsFor second rules
    ∧ ∀ (i : Installation) (d : Disk),
      let once := i.register first rules d
      let twice := i.register second rules once.disk
      (∀ path, once.result = .ok (.created path) →
        AddsNothing path once.disk twice.disk twice.result
          ∧ twice.result = .ok (.updated path []))
      ∧ ∀ path added, once.result = .ok (.updated path added) →
        AddsNothing path once.disk twice.disk twice.result
          ∧ ((∀ base, baseConfig i.projectRoot d = .ok base → base.Whole) →
            twice.result = .ok (.updated path [])) := by
  have hplugins : pluginsFor first rules = pluginsFor second rules := by
    rw [pluginsFor_of_spelling h hfirst, pluginsFor_of_spelling h hsecond]
  refine ⟨hplugins, fun i d => ?_⟩
  intro once twice
  have honce := registers i first rules d
  have htwice := registers i second rules once.disk
  rw [← hplugins] at htwice
  refine ⟨fun path hcreated => ?_, fun path added hupdated => ?_⟩
  · rw [hcreated] at honce
    exact honce.again_of_created htwice
  · rw [hupdated] at honce
    exact honce.again_of_updated htwice

/-- A directory whose name begins with dots and holds a backslash and a byte that belongs to no text,
with repeated slashes inside. -/
def oddDirectory : Path := ⟨Text.bytes "..\\a" ++ 0xFF :: Text.bytes "//b"⟩

theorem spellings_agree_oddDirectory :
    oddDirectory.BeginsWithName
      ∧ pluginsFor ⟨Path.here ++ Path.slash :: oddDirectory.bytes⟩ [.propMutation]
        = pluginsFor ⟨oddDirectory.bytes ++ List.replicate 2 Path.slash⟩ [.propMutation]
      ∧ (bareInstallation.register ⟨Path.here ++ Path.slash :: oddDirectory.bytes⟩ [.propMutation]
          bareProject).result = .ok (.created (Path.ofText "web/biome.json"))
      ∧ (bareInstallation.register ⟨oddDirectory.bytes ++ List.replicate 2 Path.slash⟩ [.propMutation]
          (bareInstallation.register ⟨Path.here ++ Path.slash :: oddDirectory.bytes⟩ [.propMutation]
            bareProject).disk).result = .ok (.updated (Path.ofText "web/biome.json") []) := by
  have hname : oddDirectory.BeginsWithName :=
    ⟨Text.bytes "..\\a" ++ [0xFF], [[], Text.bytes "b"], by decide, by decide, by decide, by decide⟩
  obtain ⟨hplugins, hagain⟩ :=
    spellings_agree hname .dotted (.slashed 2) [Rule.propMutation]
  have hcreated : (bareInstallation.register ⟨Path.here ++ Path.slash :: oddDirectory.bytes⟩
      [.propMutation] bareProject).result = .ok (.created (Path.ofText "web/biome.json")) :=
    toOption_eq_some.mp (by decide +kernel)
  exact ⟨hname, hplugins, hcreated, ((hagain bareInstallation bareProject).1 _ hcreated).2⟩

end Installation

end RulePack
