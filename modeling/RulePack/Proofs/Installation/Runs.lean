import RulePack.Proofs.Installation.Repeated

/-!
# Installations one after the other

* `Call`, `Call.after`, `Call.results` — installations into one project, from any packages;
* `Call.registered` — the registrations that they report;
* `Call.Ready` — what every call needs and keeps;
* `Call.run_copies`, `Call.run_cases` — a call leaves the configuration alone, or adds the plugins that
  it reports;
* `Call.configured_after` — what calls make of the configuration;
* `Call.registered_law` — the law of whole runs.
-/

namespace RulePack

/-- An installation into a project, from the package at a root. -/
structure Call where
  packageRoot : Path
  request : Request
  deriving DecidableEq, Repr

namespace Call

open Installation

/-- Installs into the project at a root. -/
def run (c : Call) (root : Path) (d : Disk) : Run Report :=
  install ⟨Catalog.ofRoot c.packageRoot, root⟩ c.request d

/-- The disk after calls, failed ones included. -/
def after (root : Path) : List Call → Disk → Disk
  | [], d => d
  | c :: rest, d => after root rest (c.run root d).disk

/-- The results of calls. -/
def results (root : Path) : List Call → Disk → List (Except Failure Report)
  | [], _ => []
  | c :: rest, d => (c.run root d).result :: results root rest (c.run root d).disk

/-- The registration that a result reports, with the plugins that it reports. -/
def registered? : Except Failure Report → Option (Registration × List String)
  | .ok report => report.registration.map fun registration => (registration, report.plugins)
  | .error _ => none

/-- The registrations that calls report, with the plugins, in the order of the calls. -/
def registered (root : Path) (calls : List Call) (d : Disk) : List (Registration × List String) :=
  (results root calls d).filterMap registered?

variable {root : Path} {base : Config} {d : Disk} {c : Call} {calls : List Call}

/-! ### One call -/

/-- What every call needs and keeps: a project on a disk without links, whose configuration, or the
one that it is going to have, has whole numbers. -/
structure Ready (root : Path) (base : Config) (d : Disk) : Prop where
  linkFree : d.LinkFree
  directory : d.isDirectory root = true
  config : baseConfig root d = .ok base
  whole : base.Whole

theorem Ready.keeps (h : Ready root base d) {d' : Disk} (hkeeps : d.Keeps d') {base' : Config}
    (hbase : baseConfig root d' = .ok base') (hwhole : base'.Whole) : Ready root base' d' := by
  obtain ⟨hpath, m, hm⟩ := Disk.isDirectory_iff.mp h.directory
  have hdirectory := Disk.isDirectory_iff.mpr ⟨hpath, m, Disk.dirOf_of_keeps hkeeps hm⟩
  exact ⟨fun l target he => h.linkFree l target (hkeeps.link.mp he), hdirectory, hbase, hwhole⟩

theorem registered?_map {dir : Path} {copied : List Rule} {plugins : List String}
    (result : Except Failure Registration) :
    registered? ((result.map some).map fun registration =>
        Report.mk dir copied plugins registration)
      = result.toOption.map fun registration => (registration, plugins) := by
  cases result with
  | error failure => rfl
  | ok registration => rfl

/-- Copies the rules, which a call does first. -/
def copy (c : Call) (root : Path) (d : Disk) : Run (List Rule) :=
  copyRules ⟨Catalog.ofRoot c.packageRoot, root⟩ c.request.dir d

/-- A call copies rules and reports no registration, or it copies rules and then registers those. -/
theorem run_copies (root : Path) (c : Call) (d : Disk) :
    (registered? (c.run root d).result = none ∧ (c.run root d).disk = (c.copy root d).disk)
    ∨ ∃ rules result, (c.copy root d).result = .ok rules
      ∧ Registers root (pluginsFor c.request.dir rules) (c.copy root d).disk (c.run root d).disk
        result
      ∧ registered? (c.run root d).result
        = result.toOption.map fun registration => (registration, pluginsFor c.request.dir rules) := by
  let i : Installation := ⟨Catalog.ofRoot c.packageRoot, root⟩
  cases hcopy : (i.copyRules c.request.dir d).result with
  | error failure =>
    obtain ⟨hdisk, hresult⟩ := install_of_failure hcopy
    rw [run, hdisk, hresult]
    exact Or.inl ⟨rfl, rfl⟩
  | ok rules =>
    obtain ⟨hdisk, hresult⟩ := install_of_copied hcopy
    rw [run, hdisk, hresult]
    cases hregister : c.request.register with
    | false =>
      rw [registerIf_of_not_register hregister]
      exact Or.inl ⟨rfl, rfl⟩
    | true =>
      rw [registerIf_of_register hregister, Run.map_disk, Run.map_result, Run.map_result]
      exact Or.inr ⟨rules, _, hcopy, registers i c.request.dir rules _, registered?_map _⟩

/-- A call leaves the configuration alone and reports no registration, or it adds the plugins that
it reports. -/
theorem run_cases (h : Ready root base d) (c : Call) :
    (registered? (c.run root d).result = none ∧ Ready root base (c.run root d).disk
      ∧ SameConfigs root d (c.run root d).disk)
    ∨ ∃ registration plugins existing,
      registered? (c.run root d).result = some (registration, plugins)
      ∧ ((∃ added, registration = .updated base.path added) ∨ registration = .created base.path)
      ∧ base.plugins = .ok existing
      ∧ Ready root (base.withPlugins (PluginList.merge existing plugins)) (c.run root d).disk
      ∧ Configured root (base.withPlugins (PluginList.merge existing plugins))
        (c.run root d).disk := by
  have hrules := rulesUnlinked_of_linkFree h.linkFree
  have hlink := configsUnlinked_of_linkFree h.linkFree
  have hkeeps : d.Keeps (c.copy root d).disk := keeps_copyRules hrules c.request.dir
  have hsame : SameConfigs root d (c.copy root d).disk :=
    sameConfigs_copyRules _ hrules hlink h.directory c.request.dir
  have hbase := hsame.baseConfig.trans h.config
  have hready := h.keeps hkeeps hbase h.whole
  rcases run_copies root c d with ⟨hnone, hdisk⟩ | ⟨rules, result, hcopy, hregisters, hregistered⟩
  · rw [hnone, hdisk]
    exact Or.inl ⟨rfl, hready, hsame⟩
  rw [hregistered]
  cases result with
  | error failure =>
    rw [hregisters.disk_of_error]
    exact Or.inl ⟨rfl, hready, hsame⟩
  | ok registration =>
    have hnodup : rules.Nodup :=
      (installed_of_copyRules hrules hcopy).copied_eq ▸ Rule.nodup_all.filter _
    obtain ⟨existing, hplugins, hconfigured, hregistration⟩ :=
      hregisters.configured hbase h.whole (nodup_pluginsFor c.request.dir hnodup)
    have hready' := hready.keeps (hregisters.keeps (hlink.keeps hkeeps)).1 hconfigured.baseConfig
      (Config.whole_withPlugins h.whole _)
    exact Or.inr ⟨registration, pluginsFor c.request.dir rules, existing, rfl, hregistration,
      hplugins, hready', hconfigured⟩

theorem registration_of_not_register {i : Installation} {request : Request} {report : Report}
    (hregister : request.register = false) (h : (i.install request d).result = .ok report) :
    report.registration = none := by
  cases hcopy : (i.copyRules request.dir d).result with
  | error failure =>
    rw [(install_of_failure hcopy).2] at h
    cases h
  | ok copied =>
    rw [(install_of_copied hcopy).2, registerIf_of_not_register hregister] at h
    cases h
    rfl

/-- A call that fails, or that is not asked to register anything, leaves the configuration alone. -/
theorem sameConfigs_run (h : Ready root base d)
    (hquiet : c.request.register = false ∨ ∃ failure, (c.run root d).result = .error failure) :
    SameConfigs root d (c.run root d).disk := by
  have hnone : registered? (c.run root d).result = none := by
    rcases hquiet with hregister | ⟨failure, hresult⟩
    · cases hresult : (c.run root d).result with
      | error failure => rfl
      | ok report =>
        have hregistration := registration_of_not_register hregister hresult
        rw [registered?, hregistration]
        rfl
    · rw [hresult]
      rfl
  rcases run_cases h c with ⟨-, -, hsame⟩ | ⟨_, _, _, hsome, -⟩
  · exact hsame
  · rw [hnone] at hsome
    cases hsome

/-! ### Any number of calls -/

theorem registered_cons (root : Path) (c : Call) (calls : List Call) (d : Disk) :
    registered root (c :: calls) d
      = (registered? (c.run root d).result).toList ++ registered root calls (c.run root d).disk := by
  rw [registered, results, List.filterMap_cons]
  cases registered? (c.run root d).result with
  | none => rfl
  | some m => rfl

/-- Every call finds the disk ready. -/
theorem ready_after (h : Ready root base d) (calls : List Call) :
    ∃ base', Ready root base' (after root calls d) := by
  induction calls generalizing base d with
  | nil => exact ⟨base, h⟩
  | cons c rest ih =>
    rcases run_cases h c with ⟨-, hready, -⟩ | ⟨_, _, _, -, -, -, hready, -⟩
    · exact ih hready
    · exact ih hready

/-- Calls that report no registration leave the configuration alone. -/
theorem sameConfigs_after (h : Ready root base d) (hnone : registered root calls d = []) :
    SameConfigs root d (after root calls d) := by
  induction calls generalizing d with
  | nil => exact SameConfigs.refl root d
  | cons c rest ih =>
    rw [registered_cons, List.append_eq_nil_iff] at hnone
    obtain ⟨hfirst, hrest⟩ := hnone
    rcases run_cases h c with ⟨-, hready, hsame⟩ | ⟨_, _, _, hsome, -⟩
    · exact hsame.trans (ih hready hrest)
    · rw [hsome] at hfirst
      cases hfirst

/-- All registrations are in the same configuration. -/
theorem path_of_registered (h : Ready root base d) :
    ∀ m ∈ registered root calls d,
      (∃ added, m.1 = .updated base.path added) ∨ m.1 = .created base.path := by
  induction calls generalizing base d with
  | nil => exact fun m hm => absurd hm List.not_mem_nil
  | cons c rest ih =>
    rw [registered_cons]
    rcases run_cases h c with ⟨hnone, hready, -⟩ | ⟨registration, _, _, hsome, hpath, -, hready, -⟩
    · rw [hnone]
      exact ih hready
    · rw [hsome]
      intro m hm
      rcases List.mem_cons.mp hm with rfl | hm
      · exact hpath
      · exact ih hready m hm

/-- Once plugins have been registered, the configuration has those of all calls. -/
theorem configured_after (h : Ready root base d) {existing : List String}
    (hplugins : base.plugins = .ok existing) (hsome : registered root calls d ≠ []) :
    Configured root (base.withPlugins
      (PluginList.merge existing ((registered root calls d).flatMap Prod.snd)))
      (after root calls d) := by
  induction calls generalizing base d existing with
  | nil => exact absurd rfl hsome
  | cons c rest ih =>
    rw [registered_cons] at hsome ⊢
    rcases run_cases h c with ⟨hnone, hready, -⟩
      | ⟨registration, plugins, existing', hfirst, -, hplugins', hready, hconfigured⟩
    · rw [hnone] at hsome ⊢
      exact ih hready hplugins hsome
    · cases hplugins'.symm.trans hplugins
      rw [hfirst]
      show Configured root (base.withPlugins (PluginList.merge existing
        (plugins ++ (registered root rest (c.run root d).disk).flatMap Prod.snd)))
        (after root rest (c.run root d).disk)
      rw [← PluginList.merge_merge]
      by_cases hrest : registered root rest (c.run root d).disk = []
      · rw [hrest, List.flatMap_nil,
          PluginList.merge_of_subset (PluginList.nodup_merge _ _) (by simp)]
        exact hconfigured.mono (sameConfigs_after hready hrest)
      · rw [← Config.withPlugins_withPlugins base (PluginList.merge existing plugins)]
        exact ih hready (Config.plugins_withPlugins base _) hrest

/-- **The law of whole runs.**  Whatever calls are made for a project, they register plugins in the
same configuration and never skip it; as soon as one has, the configuration names the plugins that
it named at first and those that the calls report, each at its first place, and its other members
are what and where they were.  A call that fails, or that is not asked to register anything, leaves
the configuration files alone. -/
theorem registered_law (hlink : d.LinkFree) (hroot : d.isDirectory root = true)
    (hbase : baseConfig root d = .ok base) (hwhole : base.Whole) (calls : List Call) :
    (∀ m ∈ registered root calls d,
      (∃ added, m.1 = .updated base.path added) ∨ m.1 = .created base.path)
    ∧ (registered root calls d ≠ [] → ∃ existing config, base.plugins = .ok existing
      ∧ locateConfig root (after root calls d) = some base.path
      ∧ loadConfig base.path (after root calls d) = .ok config
      ∧ config.members.get? PluginList.field = some (Json.strings
        (existing ++ (registered root calls d).flatMap Prod.snd).eraseDups)
      ∧ config.members.filter (·.1 ≠ PluginList.field)
        = base.members.filter (·.1 ≠ PluginList.field))
    ∧ ∀ before c rest, calls = before ++ c :: rest →
      (c.request.register = false
        ∨ ∃ failure, (c.run root (after root before d)).result = .error failure) →
      SameConfigs root (after root before d) (c.run root (after root before d)).disk := by
  have h : Ready root base d := ⟨hlink, hroot, hbase, hwhole⟩
  refine ⟨path_of_registered h, fun hsome => ?_, fun before c rest _ hquiet => ?_⟩
  · obtain ⟨existing, hplugins⟩ := (sound_of_baseConfig hbase).plugins
    have hconfigured := configured_after h hplugins hsome
    refine ⟨existing, _, hplugins, hconfigured.locate, hconfigured.load, ?_, ?_⟩
    · rw [← PluginList.merge_eq_eraseDups]
      exact Json.Members.get?_insert_self _ _ _
    · exact Json.Members.filter_insert _ _ _
  · obtain ⟨base', hready⟩ := ready_after h before
    exact sameConfigs_run hready hquiet

/-- A call that installs from a package, and one that finds none. -/
def callsForProject : List Call :=
  [⟨Path.ofText "pack", ⟨Path.ofText "a", true⟩⟩, ⟨Path.ofText "gone", ⟨Path.ofText "a", true⟩⟩]

theorem registered_law_bareProject :
    (bareProject.LinkFree ∧ bareProject.isDirectory (Path.ofText "web") = true
      ∧ baseConfig (Path.ofText "web") bareProject
        = .ok (Config.initial (Path.ofText "web/biome.json") []))
    ∧ registered (Path.ofText "web") callsForProject bareProject
      = [(.created (Path.ofText "web/biome.json"), ["./a/no-prop-mutation.grit"])]
    ∧ ∃ config, loadConfig (Path.ofText "web/biome.json")
        (after (Path.ofText "web") callsForProject bareProject) = .ok config
      ∧ config.members.get? PluginList.field
        = some (Json.strings ["./a/no-prop-mutation.grit"]) := by
  have hroot : bareProject.isDirectory (Path.ofText "web") = true := by decide +kernel
  have hnone : locateConfig (Path.ofText "web") bareProject = none := by decide +kernel
  have hpath : Config.defaultPath (Path.ofText "web") = Path.ofText "web/biome.json" := by decide
  have hbase : baseConfig (Path.ofText "web") bareProject
      = .ok (Config.initial (Path.ofText "web/biome.json") []) := by
    rw [baseConfig, hnone, hpath]
  have hregistered : registered (Path.ofText "web") callsForProject bareProject
      = [(.created (Path.ofText "web/biome.json"), ["./a/no-prop-mutation.grit"])] := by
    decide +kernel
  obtain ⟨-, hlaw, -⟩ := registered_law linkFree_bareProject hroot hbase
    (Config.whole_initial _ _) callsForProject
  obtain ⟨existing, config, hplugins, -, hload, hget, -⟩ := hlaw (by simp [hregistered])
  cases (Config.plugins_eq_ok.mpr (Config.pluginsOf_of_strings rfl)).symm.trans hplugins
  refine ⟨⟨linkFree_bareProject, hroot, hbase⟩, hregistered, config, hload, ?_⟩
  rw [hget, hregistered]
  rfl

end Call

end RulePack
