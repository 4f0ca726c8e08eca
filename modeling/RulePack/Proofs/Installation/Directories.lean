import RulePack.Proofs.Installation.Agreeing
import RulePack.Proofs.Installation.Outcomes
import RulePack.Proofs.Installation.Runs
import RulePack.Proofs.Plugin.Directories

/-!
# Installations into different directories

Rules that are registered in one directory are never taken for those of another one.

* `Installation.not_mem_pluginsFor` — different directories have no plugin path in common;
* `Installation.Lists` — the plugins that the configuration of a project lists;
* `Registers.tells`, `Registers.lists` — what is told when plugins are registered, and what is listed
  afterwards;
* `Call.Listed`, `Call.listed_run`, `Call.tells_run` — what a call keeps, and what it tells;
* `Call.listed_after` — what is listed after any number of calls;
* `Installation.directories_apart` — plugin paths, registrations and installations in different
  directories.
-/

namespace RulePack

open PluginPath (slashComponents ofRule ofRule_ne ofRule_eq_iff base_ne_empty trimSlashes)

namespace Installation

variable {root path : Path} {plugins more existing added : List String} {d d' d'' : Disk}
  {result : Except Failure Registration} {target other : String}

/-- Directories that differ, their backslashes read as slashes, have no plugin path in common. -/
theorem not_mem_pluginsFor (h : slashComponents target ≠ slashComponents other)
    (rules rules' : List Rule) :
    ∀ p ∈ pluginsFor (Path.ofText other) rules', p ∉ pluginsFor (Path.ofText target) rules := by
  intro p hother htarget
  obtain ⟨s, -, hs⟩ := List.mem_map.mp hother
  obtain ⟨r, -, hr⟩ := List.mem_map.mp htarget
  exact ofRule_ne h r s (hr.trans hs.symm)

/-! ### What is listed -/

/-- The configuration of a project lists plugins, if it can be loaded.  Where there is none yet, no
plugins are listed. -/
def Lists (root : Path) (existing : List String) (d : Disk) : Prop :=
  ∀ base, baseConfig root d = .ok base → base.plugins = .ok existing

theorem Lists.of_same (h : Lists root existing d) (hsame : SameConfigs root d d') :
    Lists root existing d' :=
  fun base hbase => h base (hsame.baseConfig.symm.trans hbase)

theorem lists_of_pluginsIn (hlocate : locateConfig root d = some path)
    (hin : PluginsIn path d existing) : Lists root existing d := by
  intro base hbase
  rw [baseConfig, hlocate] at hbase
  exact hin.load base hbase

theorem Lists.plugins_of_load (h : Lists root existing d) (hlocate : locateConfig root d = some path)
    {c : Config} (hload : loadConfig path d = .ok c) : c.plugins = .ok existing := by
  refine h c ?_
  rw [baseConfig, hlocate]
  exact hload

/-- A new configuration is made where nothing is listed. -/
theorem Lists.eq_nil (h : Lists root existing d) (hlocate : locateConfig root d = none) :
    existing = [] := by
  have hinitial : baseConfig root d = .ok (Config.initial (Config.defaultPath root) []) := by
    rw [baseConfig, hlocate]
  have hnone := Config.plugins_eq_ok.mpr
    (Config.pluginsOf_of_strings (rfl : (Config.initial (Config.defaultPath root) []).members.get?
      PluginList.field = some (Json.strings [])))
  exact Except.ok.inj ((h _ hinitial).symm.trans hnone)

/-- What is told are the plugins that were not listed, each once. -/
theorem Registers.tells (h : Registers root plugins d d' (.ok (.updated path added)))
    (hlists : Lists root existing d) : added = (plugins.filter (· ∉ existing)).eraseDups := by
  cases h with
  | updated hlocate hload hplugins _ =>
    cases (hlists.plugins_of_load hlocate hload).symm.trans hplugins
    exact PluginList.missing_merge existing plugins

/-- What was listed stays listed, and nothing is listed then but that and the plugins. -/
theorem Registers.lists (h : Registers root plugins d d' result) (hlists : Lists root existing d) :
    ∃ existing', Lists root existing' d' ∧ existing ⊆ existing'
      ∧ ∀ p ∈ existing', p ∈ existing ∨ p ∈ plugins := by
  have same : Lists root existing d ∧ existing ⊆ existing
      ∧ ∀ p ∈ existing, p ∈ existing ∨ p ∈ plugins :=
    ⟨hlists, List.Subset.refl existing, fun p hp => Or.inl hp⟩
  cases h with
  | updated hlocate hload hplugins hwrite =>
    cases (hlists.plugins_of_load hlocate hload).symm.trans hplugins
    obtain ⟨hlocate', hin⟩ :=
      (Registers.updated hlocate hload hplugins hwrite).updates hlocate hload hplugins
    refine ⟨(existing ++ plugins).eraseDups, lists_of_pluginsIn hlocate' hin, fun p hp => ?_,
      fun p hp => ?_⟩
    · exact List.mem_eraseDups.mpr (List.mem_append_left plugins hp)
    · exact List.mem_append.mp (List.mem_eraseDups.mp hp)
  | skipped _ _ => exact ⟨existing, same⟩
  | created hlocate hwrite =>
    obtain ⟨hlocate', hin, -⟩ := (Registers.created hlocate hwrite).creates
    rw [hlists.eq_nil hlocate]
    exact ⟨plugins, lists_of_pluginsIn hlocate' hin, List.nil_subset plugins,
      fun p hp => Or.inr hp⟩
  | failed _ _ => exact ⟨existing, same⟩

/-- To a new configuration all other plugins are added. -/
theorem Registers.after_created (h : Registers root plugins d d' (.ok (.created path)))
    (hmore : Registers root more d' d'' result) (hapart : ∀ p ∈ more, p ∉ plugins) :
    result = .ok (.updated path more.eraseDups) := by
  obtain ⟨hlocate, hin, c, hload⟩ := h.creates
  rw [(hmore.of_load hlocate hload (hin.load c hload)).2, PluginList.missing_merge,
    List.filter_eq_self.mpr (by simpa using hapart)]

/-- What is listed besides by plugins that are others makes no difference. -/
theorem filter_of_apart {existing' : List String} (hsub : existing ⊆ existing')
    (hapart : ∀ p ∈ more, p ∈ existing' → p ∈ existing) :
    more.filter (· ∉ existing') = more.filter (· ∉ existing) := by
  refine List.filter_congr fun p hp => decide_eq_decide.mpr (not_congr ?_)
  exact ⟨hapart p hp, fun hold => hsub hold⟩

end Installation

namespace Call

open Installation

variable {root : Path} {d : Disk} {c : Call} {existing plugins added : List String} {path : Path}

/-! ### One call -/

/-- What every call keeps: a project whose configuration lists plugins, on a disk without links of
the names that are written. -/
structure Listed (root : Path) (existing : List String) (d : Disk) : Prop where
  rules : RulesUnlinked d
  configs : ConfigsUnlinked d
  directory : d.isDirectory root = true
  lists : Lists root existing d

theorem Listed.keeps (h : Listed root existing d) {d' : Disk} (hkeeps : d.Keeps d')
    {existing' : List String} (hlists : Lists root existing' d') : Listed root existing' d' := by
  obtain ⟨hpath, m, hm⟩ := Disk.isDirectory_iff.mp h.directory
  have hdirectory := Disk.isDirectory_iff.mpr ⟨hpath, m, Disk.dirOf_of_keeps hkeeps hm⟩
  exact ⟨h.rules.keeps hkeeps, h.configs.keeps hkeeps, hdirectory, hlists⟩

/-- When a call has copied rules, the same plugins are listed. -/
theorem Listed.copy (h : Listed root existing d) (c : Call) :
    Listed root existing (c.copy root d).disk :=
  h.keeps (keeps_copyRules h.rules c.request.dir)
    (h.lists.of_same (sameConfigs_copyRules _ h.rules h.configs h.directory c.request.dir))

/-- What was listed stays listed after a call, and nothing is listed then but that and plugin paths of
its directory. -/
theorem listed_run (h : Listed root existing d) (c : Call) :
    ∃ existing', Listed root existing' (c.run root d).disk ∧ existing ⊆ existing'
      ∧ ∀ p ∈ existing', p ∈ existing ∨ ∃ rules, p ∈ pluginsFor c.request.dir rules := by
  rcases run_copies root c d with ⟨-, hdisk⟩ | ⟨rules, result, -, hregisters, -⟩
  · rw [hdisk]
    exact ⟨existing, h.copy c, List.Subset.refl existing, fun p hp => Or.inl hp⟩
  · obtain ⟨existing', hlists, hsub, hnew⟩ := hregisters.lists (h.copy c).lists
    exact ⟨existing', (h.copy c).keeps (hregisters.keeps (h.copy c).configs).1 hlists, hsub,
      fun p hp => (hnew p hp).imp_right fun hmem => ⟨rules, hmem⟩⟩

/-- A call that updates the configuration tells which of its plugins were not listed. -/
theorem tells_run (h : Listed root existing d)
    (hregistered : registered? (c.run root d).result = some (.updated path added, plugins)) :
    (∃ rules, plugins = pluginsFor c.request.dir rules)
      ∧ added = (plugins.filter (· ∉ existing)).eraseDups := by
  rcases run_copies root c d with ⟨hnone, -⟩ | ⟨rules, result, -, hregisters, hsome⟩
  · cases hnone.symm.trans hregistered
  · cases result with
    | error failure => cases hsome.symm.trans hregistered
    | ok registration =>
      cases hsome.symm.trans hregistered
      exact ⟨⟨rules, rfl⟩, hregisters.tells (h.copy c).lists⟩

/-! ### Any number of calls -/

/-- What was listed stays listed after any calls, and nothing is listed then but that and plugin paths
of their directories. -/
theorem listed_after (h : Listed root existing d) (calls : List Call) :
    ∃ existing', Listed root existing' (after root calls d) ∧ existing ⊆ existing'
      ∧ ∀ p ∈ existing', p ∈ existing
        ∨ ∃ c ∈ calls, ∃ rules, p ∈ pluginsFor c.request.dir rules := by
  induction calls generalizing existing d with
  | nil => exact ⟨existing, h, List.Subset.refl existing, fun p hp => Or.inl hp⟩
  | cons c rest ih =>
    obtain ⟨first, hfirst, hsub, hnew⟩ := listed_run h c
    obtain ⟨existing', hlisted, hsub', hnew'⟩ := ih hfirst
    refine ⟨existing', hlisted, List.Subset.trans hsub hsub', fun p hp => ?_⟩
    rcases hnew' p hp with hmem | ⟨c', hc', hrules⟩
    · rcases hnew p hmem with hold | hrules
      · exact Or.inl hold
      · exact Or.inr ⟨c, List.mem_cons_self, hrules⟩
    · exact Or.inr ⟨c', List.mem_cons_of_mem c hc', hrules⟩

end Call

namespace Installation

/-- **Different directories have different plugin paths.**  Two plugin paths are the same exactly if
their rules are and the bases of their directories are up to slashes at the end.  For directories
with different components, every backslash read as a slash, they are never the same: rules
registered in the one are not taken for rules in the other, whether they are registered on any disk
or installed any number of times.  What is told are the plugins that were not listed at first. -/
theorem directories_apart (target other : String) :
    (∀ r s, ofRule (PluginPath.base (Path.ofText target)) r
        = ofRule (PluginPath.base (Path.ofText other)) s
      ↔ r = s ∧ trimSlashes (PluginPath.base (Path.ofText target))
        = trimSlashes (PluginPath.base (Path.ofText other)))
    ∧ (slashComponents target ≠ slashComponents other →
      (∀ r s, ofRule (PluginPath.base (Path.ofText target)) r
        ≠ ofRule (PluginPath.base (Path.ofText other)) s)
      ∧ (∀ (i : Installation) (rules rules' : List Rule) (d : Disk) (existing : List String),
        Lists i.projectRoot existing d →
        let once := i.register (Path.ofText target) rules d
        let twice := i.register (Path.ofText other) rules' once.disk
        let plugins := pluginsFor (Path.ofText other) rules'
        (∀ path, once.result = .ok (.created path) →
          twice.result = .ok (.updated path plugins.eraseDups))
        ∧ ∀ path added, twice.result = .ok (.updated path added) →
          added = (plugins.filter (· ∉ existing)).eraseDups)
      ∧ ∀ (root : Path) (existing : List String) (d : Disk) (calls : List Call) (c : Call)
        (path : Path) (added plugins : List String),
        RulesUnlinked d → ConfigsUnlinked d → d.isDirectory root = true →
        Lists root existing d →
        (∀ c' ∈ calls, c'.request.dir = Path.ofText target) → c.request.dir = Path.ofText other →
        Call.registered? (c.run root (Call.after root calls d)).result
          = some (.updated path added, plugins) →
        added = (plugins.filter (· ∉ existing)).eraseDups) := by
  refine ⟨fun r s => ofRule_eq_iff (base_ne_empty target) (base_ne_empty other), fun h => ?_⟩
  refine ⟨ofRule_ne h, fun i rules rules' d existing hlists => ?_, ?_⟩
  · intro once twice plugins
    have honce := registers i (Path.ofText target) rules d
    have htwice := registers i (Path.ofText other) rules' once.disk
    have hapart := not_mem_pluginsFor h rules rules'
    refine ⟨fun path hcreated => ?_, fun path added hupdated => ?_⟩
    · rw [hcreated] at honce
      exact honce.after_created htwice hapart
    · obtain ⟨existing', hlists', hsub, hnew⟩ := honce.lists hlists
      rw [hupdated] at htwice
      rw [htwice.tells hlists', filter_of_apart hsub fun p hp hmem =>
        (hnew p hmem).resolve_right (hapart p hp)]
  · intro root existing d calls c path added plugins hrules hconfigs hroot hlists hcalls hdir
      hregistered
    have hlisted : Call.Listed root existing d := ⟨hrules, hconfigs, hroot, hlists⟩
    obtain ⟨existing', hafter, hsub, hnew⟩ := Call.listed_after hlisted calls
    obtain ⟨⟨rules, rfl⟩, hadded⟩ := Call.tells_run hafter hregistered
    rw [hadded, filter_of_apart hsub fun p hp hmem => (hnew p hmem).resolve_right ?_]
    rintro ⟨c', hc', rules', hp'⟩
    rw [hdir] at hp
    rw [hcalls c' hc'] at hp'
    exact not_mem_pluginsFor h rules' rules p hp hp'

theorem lists_bareProject : Lists (Path.ofText "web") [] bareProject := by
  have hnone : locateConfig (Path.ofText "web") bareProject = none := by decide +kernel
  intro base hbase
  rw [baseConfig, hnone] at hbase
  cases hbase
  rfl

/-- The same project with a configuration that is an empty object. -/
def emptyProject : Disk where
  workingDir := []
  entries := bareProject.entries
    ++ [([Text.bytes "biome.json", Text.bytes "web"], .file (Text.bytes "{}"))]

theorem lists_emptyProject : Lists (Path.ofText "web") [] emptyProject := by
  have hlocate : locateConfig (Path.ofText "web") emptyProject
      = some (Path.ofText "web/biome.json") := by
    decide +kernel
  have hread : emptyProject.readText (Path.ofText "web/biome.json") = .ok "{}" :=
    toOption_eq_some.mp (by decide +kernel)
  intro base hbase
  rw [baseConfig, hlocate] at hbase
  cases hbase.symm.trans (loadConfig_eq_ok_iff.mpr ⟨_, hread, rfl⟩)
  rfl

/-- An installation of the package into a directory of the project. -/
def packInto (target : String) : Call := ⟨Path.ofText "pack", ⟨Path.ofText target, true⟩⟩

/-- The plugin path of a directory is told after a registration in another directory, and after an
installation there. -/
theorem directories_apart_projects :
    let web := Path.ofText "web"
    let config := Path.ofText "web/biome.json"
    let plugins := ["./lint/b/no-prop-mutation.grit"]
    slashComponents "a" ≠ slashComponents "lint\\b"
      ∧ Lists web [] bareProject ∧ Lists web [] emptyProject
      ∧ (bareInstallation.register (Path.ofText "lint\\b") [.propMutation]
          (bareInstallation.register (Path.ofText "a") [.propMutation] bareProject).disk).result
        = .ok (.updated config plugins)
      ∧ Call.registered? ((packInto "lint\\b").run web
          (Call.after web [packInto "a"] emptyProject)).result
        = some (.updated config (plugins.filter (· ∉ [])).eraseDups, plugins) := by
  intro web config plugins
  have hne : slashComponents "a" ≠ slashComponents "lint\\b" := by decide +kernel
  obtain ⟨-, hapart⟩ := directories_apart "a" "lint\\b"
  obtain ⟨-, hregister, hinstall⟩ := hapart hne
  have hcreated : (bareInstallation.register (Path.ofText "a") [.propMutation] bareProject).result
      = .ok (.created config) :=
    toOption_eq_some.mp (by decide +kernel)
  have hupdated := (hregister bareInstallation [.propMutation] [.propMutation] bareProject []
    lists_bareProject).1 config hcreated
  have hplugins : (pluginsFor (Path.ofText "lint\\b") [.propMutation]).eraseDups = plugins := by
    decide +kernel
  rw [hplugins] at hupdated
  have hregistered : Call.registered? ((packInto "lint\\b").run web
        (Call.after web [packInto "a"] emptyProject)).result
      = some (.updated config plugins, plugins) := by
    decide +kernel
  have hlink : emptyProject.LinkFree :=
    Disk.linkFree_of_entries (by simp [emptyProject, bareProject])
  have hadded := hinstall web [] emptyProject [packInto "a"] (packInto "lint\\b") config plugins
    plugins (rulesUnlinked_of_linkFree hlink) (configsUnlinked_of_linkFree hlink)
    (by decide +kernel) lists_emptyProject (by simp [packInto]) rfl hregistered
  exact ⟨hne, lists_bareProject, lists_emptyProject, hupdated, by rw [← hadded]; exact hregistered⟩

end Installation

end RulePack
